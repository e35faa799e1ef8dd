import AspKernel.MessageBuf
import AspKernel.Lib.Run
import AspKernel.Lib.RoundUp

namespace AspKernel.Mbf
set_option autoImplicit true

/-- The round-up of a size that does not wrap. -/
theorem roundUint_eq (h : n + 3 < 2 ^ 32) : roundUint n = (n + 3) / 4 * 4 := by
  unfold roundUint roundSz
  have hsub : BitVec.ofNat 32 n + 4 - 1 = BitVec.ofNat 32 (n + 3) := by bv_omega
  rw [hsub]
  have hlow := RoundUp.and_not_low (k := 2) (BitVec.ofNat 32 (n + 3)) (by decide)
  rw [BitVec.toNat_ofNat, Nat.mod_eq_of_lt h] at hlow
  exact hlow

theorem roundUint_mod (n : Nat) : roundUint n % 4 = 0 := by
  unfold roundUint roundSz
  have hlow := RoundUp.and_not_low (k := 2) (BitVec.ofNat 32 n + 4 - 1) (by decide)
  exact hlow ▸ Nat.mul_mod_left ..

/-- What the configurator makes of `CRE_MBF`. -/
def MBFINIB.create (mbfatr : ATR) (maxmsz mbfsz : Nat) (h : 4 + (maxmsz + 3) / 4 * 4 < 2 ^ 32) :
    MBFINIB where
  mbfatr
  maxmsz
  mbfsz := roundUint mbfsz
  aligned := roundUint_mod mbfsz
  mbfsz_lt := BitVec.isLt _
  maxmsz_lt := h

theorem uintBytes_length (n : Nat) : (uintBytes n).length = 4 := by
  unfold uintBytes
  rw [List.length_map, List.length_range]

theorem uintOf_uintBytes (h : n < 2 ^ 32) : uintOf (uintBytes n) = n := by
  change (BitVec.ofNat 8 (n / 2 ^ (8 * 0))).toNat + 2 ^ 8 *
    ((BitVec.ofNat 8 (n / 2 ^ (8 * 1))).toNat + 2 ^ 8 *
      ((BitVec.ofNat 8 (n / 2 ^ (8 * 2))).toNat + 2 ^ 8 *
        ((BitVec.ofNat 8 (n / 2 ^ (8 * 3))).toNat + 2 ^ 8 * 0))) = n
  simp only [BitVec.toNat_ofNat]
  omega

/-- The number of bytes that a message takes. -/
def allocsz (msg : List Byte) : Nat := 4 + (msg.length + 3) / 4 * 4

/-- The bytes of a message with its size, filled up to a multiple of 4. -/
def Cell (c : List Byte) (msg : List Byte) : Prop :=
  ∃ pad, c = uintBytes msg.length ++ msg ++ pad ∧ c.length = allocsz msg

/-- The sum of the sizes of some messages. -/
def total (msgs : List (List Byte)) : Nat := (msgs.map allocsz).sum

/-- The messages that a buffer holds. -/
structure Holds (ini : MBFINIB) (p : MBFCB) (msgs : List (List Byte)) : Prop where
  cnt : p.smbfcnt = msgs.length
  size : p.fmbfsz + total msgs = ini.mbfsz
  head : p.head < ini.mbfsz ∨ p.head = 0
  head_mod : p.head % 4 = 0
  tail : p.tail = (p.head + total msgs) % ini.mbfsz
  fits : ∀ m ∈ msgs, 0 < m.length ∧ m.length ≤ ini.maxmsz
  bytes : ∃ cells, Ring.slots p.mbfmb ini.mbfsz p.head (total msgs) = cells.flatten ∧
    List.Forall₂ Cell cells msgs

theorem init_holds (ini : MBFINIB) (mb : Nat → Byte) : Holds ini (.init ini mb) [] :=
  ⟨rfl, Nat.add_zero _, .inr rfl, rfl, (Nat.zero_mod _).symm, nofun, [], rfl, .nil⟩

theorem allocsz_eq {ini : MBFINIB} {msg : List Byte} (h : msg.length ≤ ini.maxmsz) :
    (4 + roundUint msg.length) % 2 ^ 32 = allocsz msg := by
  have hlt := ini.maxmsz_lt
  rw [roundUint_eq (by omega)]
  exact Nat.mod_eq_of_lt (by omega)

theorem total_append (msgs : List (List Byte)) (msg : List Byte) :
    total (msgs ++ [msg]) = total msgs + allocsz msg := by
  unfold total
  rw [List.map_append, List.sum_append]
  exact congrArg _ (Nat.add_zero _)

theorem total_cons (msg : List Byte) (msgs : List (List Byte)) :
    total (msg :: msgs) = allocsz msg + total msgs := rfl

theorem total_mod (msgs : List (List Byte)) : total msgs % 4 = 0 := by
  induction msgs with
  | nil => rfl
  | cons m msgs ih =>
    rw [total_cons, allocsz]
    omega

theorem wrap_eq {ini : MBFINIB} (h : i ≤ ini.mbfsz) (hi : i = (a % ini.mbfsz) + b) :
    ini.wrap i = (a + b) % ini.mbfsz := by
  unfold MBFINIB.wrap
  have hm : (a + b) % ini.mbfsz = i % ini.mbfsz := by rw [hi, Nat.mod_add_mod]
  rw [hm]
  split
  · rw [show i = ini.mbfsz by omega, Nat.mod_self]
  · rw [Nat.mod_eq_of_lt (by omega)]

/-- The bytes of a message go in behind those of the messages that are there. -/
theorem enqueue_bytes {ini : MBFINIB} {p : MBFCB} {n : Nat} (hn : n % 4 = 0)
    (hh : p.head % 4 = 0) (ht : p.tail = (p.head + n) % ini.mbfsz) (hle : msg.length ≤ ini.maxmsz)
    (hr : n + allocsz msg ≤ ini.mbfsz) (hf : allocsz msg ≤ p.fmbfsz) :
    ∃ mb pad, p.enqueueMessage ini msg = some (true, { p with
        mbfmb := mb
        tail := (p.head + (n + allocsz msg)) % ini.mbfsz
        fmbfsz := p.fmbfsz - allocsz msg
        smbfcnt := p.smbfcnt + 1 }) ∧
      Ring.slots mb ini.mbfsz p.head (n + allocsz msg) =
        Ring.slots p.mbfmb ini.mbfsz p.head n ++ (uintBytes msg.length ++ msg ++ pad) := by
  have hlt := ini.maxmsz_lt
  have hal := ini.aligned
  have hround : roundUint msg.length = (msg.length + 3) / 4 * 4 := roundUint_eq (by omega)
  have hsz : allocsz msg = 4 + (msg.length + 3) / 4 * 4 := rfl
  have hpos : 0 < ini.mbfsz := by omega
  have htlt : p.tail < ini.mbfsz := ht ▸ Nat.mod_lt _ hpos
  have ht4 : p.tail % 4 = 0 := by
    rw [ht, Nat.mod_mod_of_dvd _ (Nat.dvd_of_mod_eq_zero hal)]
    omega
  -- the size
  have h1 := Ring.slots_write p.mbfmb (uintBytes msg.length)
    (show n + (uintBytes msg.length).length ≤ ini.mbfsz by rw [uintBytes_length]; omega) ht
    (by rw [uintBytes_length]; omega)
  rw [uintBytes_length] at h1
  have hs1 : ini.storeUint p.mbfmb p.tail msg.length =
      some (Ring.write p.mbfmb p.tail (uintBytes msg.length)) := by
    unfold MBFINIB.storeUint MBFINIB.store
    rw [if_pos ht4, if_pos (by rw [uintBytes_length]; omega)]
  have hw1 : ini.wrap (p.tail + 4) = (p.head + (n + 4)) % ini.mbfsz := by
    rw [wrap_eq (by omega) (congrArg (· + 4) ht), Nat.add_assoc]
  obtain ⟨i, hi⟩ : ∃ i, i = (p.head + (n + 4)) % ini.mbfsz := ⟨_, rfl⟩
  have hilt : i < ini.mbfsz := hi ▸ Nat.mod_lt _ hpos
  have hi4 : i % 4 = 0 := by
    rw [hi, Nat.mod_mod_of_dvd _ (Nat.dvd_of_mod_eq_zero hal)]
    omega
  have hin : n + 4 + msg.length ≤ ini.mbfsz := by omega
  -- what is left behind the message up to a multiple of 4
  have hpad (mb : Nat → Byte) (hb : Ring.slots mb ini.mbfsz p.head (n + 4 + msg.length) =
      Ring.slots p.mbfmb ini.mbfsz p.head n ++ uintBytes msg.length ++ msg) :
      ∃ pad, Ring.slots mb ini.mbfsz p.head (n + allocsz msg) =
        Ring.slots p.mbfmb ini.mbfsz p.head n ++ (uintBytes msg.length ++ msg ++ pad) := by
    refine ⟨Ring.slots mb ini.mbfsz ((p.head + (n + 4 + msg.length)) % ini.mbfsz)
      (allocsz msg - (4 + msg.length)), ?_⟩
    rw [show n + allocsz msg = n + 4 + msg.length + (allocsz msg - (4 + msg.length)) by omega,
      Ring.slots_add, hb]
    simp only [List.append_assoc]
  unfold MBFCB.enqueueMessage
  rw [allocsz_eq hle]
  simp only [hf, ↓reduceIte, hs1, hw1, ← hi, Option.bind_eq_bind, Option.bind_some]
  by_cases hrem : ini.mbfsz - i < msg.length
  · have h2 := Ring.slots_write_two (Ring.write p.mbfmb p.tail (uintBytes msg.length)) msg hin hi
      hrem
    have hst (mb : Nat → Byte) : ini.store mb i (msg.take (ini.mbfsz - i)) =
        some (Ring.write mb i (msg.take (ini.mbfsz - i))) :=
      if_pos (by rw [List.length_take_of_le hrem.le]; omega)
    have hst2 (mb : Nat → Byte) : ini.store mb 0 (msg.drop (ini.mbfsz - i)) =
        some (Ring.write mb 0 (msg.drop (ini.mbfsz - i))) :=
      if_pos (by rw [List.length_drop]; omega)
    obtain ⟨pad, hp⟩ := hpad _ (h2.trans (congrArg (· ++ msg) h1))
    have hw : ini.wrap (0 + roundUint (msg.drop (ini.mbfsz - i)).length) =
        (p.head + (n + allocsz msg)) % ini.mbfsz := by
      rw [List.length_drop, roundUint_eq (by omega)]
      have h0 := Ring.add_end hilt hi
      rw [wrap_eq (by omega) (congrArg (· + (msg.length - (ini.mbfsz - i) + 3) / 4 * 4) h0.symm)]
      exact congrArg (· % _) (by omega)
    simp only [hrem, ↓reduceIte, hst, Option.map_some, Option.bind_some, hst2, hw]
    exact ⟨_, pad, rfl, hp⟩
  · have h2 := Ring.slots_write (Ring.write p.mbfmb p.tail (uintBytes msg.length)) msg hin hi
      (by omega)
    have hst (mb : Nat → Byte) : ini.store mb i msg = some (Ring.write mb i msg) :=
      if_pos (by omega)
    obtain ⟨pad, hp⟩ := hpad _ (h2.trans (congrArg (· ++ msg) h1))
    have hw : ini.wrap (i + roundUint msg.length) =
        (p.head + (n + allocsz msg)) % ini.mbfsz := by
      rw [wrap_eq (by omega) (congrArg₂ (· + ·) hi hround)]
      exact congrArg (· % _) (by omega)
    simp only [hrem, ↓reduceIte, Option.bind_some, hst, hw]
    exact ⟨_, pad, rfl, hp⟩

/-- The first message comes out. -/
theorem dequeue_bytes {ini : MBFINIB} {p : MBFCB} {rest : List Byte} (hc : p.smbfcnt ≠ 0)
    (hh : p.head % 4 = 0) (hlt : p.head < ini.mbfsz) (hle : msg.length ≤ ini.maxmsz)
    (hcell : Cell c msg) (hr : n ≤ ini.mbfsz)
    (hs : Ring.slots p.mbfmb ini.mbfsz p.head n = c ++ rest) :
    p.dequeueMessage ini = some (msg, { p with
      head := (p.head + allocsz msg) % ini.mbfsz
      fmbfsz := p.fmbfsz + allocsz msg
      smbfcnt := p.smbfcnt - 1 }) := by
  obtain ⟨pad, rfl, hlen⟩ := hcell
  have hmlt := ini.maxmsz_lt
  have hal := ini.aligned
  have hsz : allocsz msg = 4 + (msg.length + 3) / 4 * 4 := rfl
  have hn : n = allocsz msg + rest.length := by
    rw [← Ring.slots_length p.mbfmb ini.mbfsz p.head n, hs, List.length_append, hlen]
  rw [List.append_assoc, List.append_assoc] at hs
  obtain ⟨h4, hs⟩ := Ring.slots_split hs
  rw [uintBytes_length] at h4 hs
  obtain ⟨hm, -⟩ := Ring.slots_split hs
  rw [Ring.slots_eq_read p.mbfmb (show p.head + 4 ≤ ini.mbfsz by omega)] at h4
  have hf4 : ini.fetchUint p.mbfmb p.head = some msg.length := by
    unfold MBFINIB.fetchUint MBFINIB.fetch
    rw [if_pos hh, if_pos (by omega), h4]
    exact congrArg some (uintOf_uintBytes (by omega))
  have hw1 : ini.wrap (p.head + 4) = (p.head + 4) % ini.mbfsz :=
    wrap_eq (by omega) (congrArg (· + 4) (Nat.mod_eq_of_lt hlt).symm)
  obtain ⟨i, hi⟩ : ∃ i, i = (p.head + 4) % ini.mbfsz := ⟨_, rfl⟩
  have hilt : i < ini.mbfsz := hi ▸ Nat.mod_lt _ (by omega)
  have hi4 : i % 4 = 0 := by
    rw [hi, Nat.mod_mod_of_dvd _ (Nat.dvd_of_mod_eq_zero hal)]
    omega
  have hround : roundUint msg.length = (msg.length + 3) / 4 * 4 := roundUint_eq (by omega)
  rw [← hi] at hm
  unfold MBFCB.dequeueMessage
  simp only [hc, ↓reduceIte, hf4, hw1, ← hi, Option.bind_eq_bind, Option.bind_some, hround]
  by_cases hrem : ini.mbfsz - i < msg.length
  · rw [Ring.slots_eq_two _ hilt hrem (by omega)] at hm
    have hft : ini.fetch p.mbfmb i (ini.mbfsz - i) =
        some (Ring.read p.mbfmb i (ini.mbfsz - i)) := if_pos (by omega)
    have hft2 : ini.fetch p.mbfmb 0 (msg.length - (ini.mbfsz - i)) =
        some (Ring.read p.mbfmb 0 (msg.length - (ini.mbfsz - i))) := if_pos (by omega)
    have hw : ini.wrap (0 + roundUint (msg.length - (ini.mbfsz - i))) =
        (p.head + allocsz msg) % ini.mbfsz := by
      rw [roundUint_eq (by omega)]
      have h0 := Ring.add_end hilt hi
      rw [wrap_eq (by omega) (congrArg (· + (msg.length - (ini.mbfsz - i) + 3) / 4 * 4) h0.symm)]
      exact congrArg (· % _) (by omega)
    simp only [hrem, ↓reduceIte, hft, Option.map_some, Option.bind_some, hft2, hw, hm]
    rfl
  · rw [Ring.slots_eq_read _ (by omega)] at hm
    have hft : ini.fetch p.mbfmb i msg.length = some msg :=
      (if_pos (by omega)).trans (congrArg some hm)
    have hw : ini.wrap (i + (msg.length + 3) / 4 * 4) = (p.head + allocsz msg) % ini.mbfsz := by
      rw [wrap_eq (by omega) (congrArg (· + (msg.length + 3) / 4 * 4) hi)]
      exact congrArg (· % _) (by omega)
    simp only [hrem, ↓reduceIte, Option.bind_some, hft, hw]
    rfl

/-- A message goes in exactly when there is room for it, and else nothing changes. -/
theorem Holds.enqueue {ini : MBFINIB} {p : MBFCB} (h : Holds ini p msgs) (h0 : 0 < msg.length)
    (hle : msg.length ≤ ini.maxmsz) :
    if allocsz msg ≤ p.fmbfsz then
      ∃ q, p.enqueueMessage ini msg = some (true, q) ∧ Holds ini q (msgs ++ [msg]) ∧
        q.swaitQueue = p.swaitQueue ∧ q.rwaitQueue = p.rwaitQueue
    else p.enqueueMessage ini msg = some (false, p) := by
  have hsz : 4 ≤ allocsz msg := Nat.le_add_right ..
  have hsize := h.size
  split
  · rename_i hf
    obtain ⟨mb, pad, he, hb⟩ := enqueue_bytes (total_mod msgs) h.head_mod h.tail hle
      (by omega) hf
    obtain ⟨cells, hcs, hcell⟩ := h.bytes
    refine ⟨_, he, ⟨?_, ?_, h.head, h.head_mod, ?_, ?_, ?_⟩, rfl, rfl⟩
    · rw [List.length_append]
      exact congrArg (· + 1) h.cnt
    · rw [total_append]
      change p.fmbfsz - allocsz msg + _ = _
      omega
    · rw [total_append]
    · intro m hm
      rcases List.mem_append.1 hm with hm | hm
      · exact h.fits m hm
      · rw [List.mem_singleton.1 hm]
        exact ⟨h0, hle⟩
    · refine ⟨cells ++ [uintBytes msg.length ++ msg ++ pad], ?_, ?_⟩
      · rw [total_append, List.flatten_append, ← hcs]
        simpa using hb
      · refine List.rel_append hcell (.cons ⟨pad, rfl, ?_⟩ .nil)
        have hlen := congrArg List.length hb
        rw [List.length_append, Ring.slots_length, Ring.slots_length] at hlen
        omega
  · rename_i hf
    unfold MBFCB.enqueueMessage
    rw [allocsz_eq hle]
    simp only [hf, ↓reduceIte]

/-- The first of the messages comes out. -/
theorem Holds.dequeue {ini : MBFINIB} {p : MBFCB} (h : Holds ini p (msg :: msgs)) :
    ∃ q, p.dequeueMessage ini = some (msg, q) ∧ Holds ini q msgs ∧
      q.swaitQueue = p.swaitQueue ∧ q.rwaitQueue = p.rwaitQueue := by
  obtain ⟨cells, hcs, hcell⟩ := h.bytes
  obtain ⟨c, cs, hc, hcells, rfl⟩ : ∃ c cs, Cell c msg ∧ List.Forall₂ Cell cs msgs ∧
      cells = c :: cs := by
    cases hcell with
    | cons hc hcs => exact ⟨_, _, hc, hcs, rfl⟩
  have hsize := h.size
  have hal := ini.aligned
  have hsz : allocsz msg = 4 + (msg.length + 3) / 4 * 4 := rfl
  rw [total_cons] at hsize hcs
  have hpos : 0 < ini.mbfsz := by omega
  have hlt : p.head < ini.mbfsz := h.head.elim id fun h0 => h0 ▸ hpos
  have hmem := h.fits msg List.mem_cons_self
  have hlen : c.length = allocsz msg := hc.choose_spec.2
  have he := dequeue_bytes (by rw [h.cnt]; exact Nat.succ_ne_zero _) h.head_mod hlt hmem.2 hc
    (by omega) hcs
  obtain ⟨-, hrest⟩ := Ring.slots_split hcs
  have hflat : cs.flatten.length = total msgs := by
    have hl := congrArg List.length hcs
    rw [Ring.slots_length, List.flatten_cons, List.length_append] at hl
    omega
  rw [hlen, hflat] at hrest
  refine ⟨_, he, ⟨?_, ?_, .inl (Nat.mod_lt _ hpos), ?_, ?_, fun m hm => ?_, cs, hrest, hcells⟩,
    rfl, rfl⟩
  · change p.smbfcnt - 1 = _
    rw [h.cnt]
    rfl
  · change p.fmbfsz + allocsz msg + total msgs = _
    omega
  · change (p.head + allocsz msg) % ini.mbfsz % 4 = 0
    rw [Nat.mod_mod_of_dvd _ (Nat.dvd_of_mod_eq_zero hal)]
    have hh := h.head_mod
    omega
  · change p.tail = ((p.head + allocsz msg) % ini.mbfsz + total msgs) % ini.mbfsz
    rw [h.tail, Nat.mod_add_mod, total_cons, Nat.add_assoc]
  · exact h.fits m (List.mem_cons_of_mem _ hm)

/-- The two operations with what they return. -/
inductive RingOp
  | enqueue (msg : List Byte) (ok : Bool)
  | dequeue (msg : List Byte)

inductive RingStep (ini : MBFINIB) (p : MBFCB) : RingOp → MBFCB → Prop
  | enqueue (h0 : 0 < msg.length) (hle : msg.length ≤ ini.maxmsz)
    (he : p.enqueueMessage ini msg = some (ok, q)) : RingStep ini p (.enqueue msg ok) q
  | dequeue (h0 : 0 < p.smbfcnt) (he : p.dequeueMessage ini = some (msg, q)) :
    RingStep ini p (.dequeue msg) q

/-- The messages that have been put in, and those that have come out. -/
def enqueued (ops : List RingOp) : List (List Byte) :=
  ops.filterMap fun
    | .enqueue msg true => some msg
    | _ => none

def dequeued (ops : List RingOp) : List (List Byte) :=
  ops.filterMap fun
    | .dequeue msg => some msg
    | _ => none

theorem RingStep.holds {ini : MBFINIB} {p q : MBFCB} (hs : RingStep ini p op q)
    (h : Holds ini p msgs) : ∃ msgs', Holds ini q msgs' ∧
      msgs ++ enqueued [op] = dequeued [op] ++ msgs' := by
  cases hs with
  | @enqueue msg q ok h0 hle he =>
    have hq := h.enqueue h0 hle
    split at hq
    · obtain ⟨q', he', hh, -⟩ := hq
      rw [he] at he'
      cases he'
      exact ⟨_, hh, rfl⟩
    · rw [he] at hq
      cases hq
      exact ⟨msgs, h, List.append_nil _⟩
  | @dequeue msg q h0 he =>
    cases msgs with
    | nil => exact absurd h.cnt (Nat.ne_of_gt h0)
    | cons m msgs =>
      obtain ⟨q', he', hh, -⟩ := h.dequeue
      rw [he] at he'
      cases he'
      exact ⟨msgs, hh, List.append_nil _⟩

/-- The ring is a queue of byte strings: what comes out is what has been put in, in order; a message
goes in exactly when there is room for it, and every access lies in the area. -/
theorem ring_queue (ini : MBFINIB) (mb : Nat → Byte)
    (h : Trans.Run (RingStep ini) (.init ini mb) ops p) : ∃ msgs,
    enqueued ops = dequeued ops ++ msgs ∧ p.smbfcnt = msgs.length ∧
    p.fmbfsz + (msgs.map fun m => 4 + (m.length + 3) / 4 * 4).sum = ini.mbfsz ∧
    (p.head < ini.mbfsz ∨ ini.mbfsz = 0 ∧ p.head = 0) ∧
    (p.tail < ini.mbfsz ∨ ini.mbfsz = 0 ∧ p.tail = 0) ∧
    (∀ msg, 0 < msg.length → msg.length ≤ ini.maxmsz → ∃ ok q,
      p.enqueueMessage ini msg = some (ok, q) ∧
      (ok = false ↔ p.fmbfsz < 4 + (msg.length + 3) / 4 * 4) ∧ (ok = false → q = p)) ∧
    (0 < p.smbfcnt → ∃ msg q, msgs.head? = some msg ∧ p.dequeueMessage ini = some (msg, q)) := by
  have hrun : ∃ msgs, Holds ini p msgs ∧ enqueued ops = dequeued ops ++ msgs := by
    induction h with
    | nil => exact ⟨[], init_holds ini mb, rfl⟩
    | @snoc ops _ op q _ hs ih =>
      obtain ⟨msgs, hh, he⟩ := ih
      obtain ⟨msgs', hh', he'⟩ := hs.holds hh
      refine ⟨msgs', hh', ?_⟩
      unfold enqueued dequeued at *
      rw [List.filterMap_append, List.filterMap_append, he, List.append_assoc, he',
        List.append_assoc]
  obtain ⟨msgs, hh, he⟩ := hrun
  have hsize := hh.size
  refine ⟨msgs, he, hh.cnt, hsize, ?_, ?_, fun msg h0 hle => ?_, fun h0 => ?_⟩
  · have := hh.head
    omega
  · by_cases hm : ini.mbfsz = 0
    · refine .inr ⟨hm, ?_⟩
      have hhead := hh.head
      rw [hh.tail, hm, Nat.mod_zero]
      omega
    · exact .inl (hh.tail ▸ Nat.mod_lt _ (Nat.pos_of_ne_zero hm))
  · have hq := hh.enqueue h0 hle
    have hsz : allocsz msg = 4 + (msg.length + 3) / 4 * 4 := rfl
    split at hq
    · rename_i hf
      obtain ⟨q, he, -⟩ := hq
      exact ⟨true, q, he, ⟨nofun, fun hn => absurd hn (by omega)⟩, nofun⟩
    · rename_i hf
      exact ⟨false, p, hq, ⟨fun _ => by omega, fun _ => rfl⟩, fun _ => rfl⟩
  · cases msgs with
    | nil => exact absurd hh.cnt (Nat.ne_of_gt h0)
    | cons m msgs =>
      obtain ⟨q, he, -⟩ := hh.dequeue
      exact ⟨m, q, rfl, he⟩

theorem sixteen_bytes_lt : 4 + (16 + 3) / 4 * 4 < 2 ^ 32 := by decide

/-- Messages of up to 16 bytes in an area of 20 bytes. -/
def MBFINIB.small : MBFINIB := .create TA_NULL 16 18 sixteen_bytes_lt

theorem ring_queue_one : ∃ p, (MBFCB.init .small fun _ => 0).enqueueMessage .small [1, 2, 3] =
    some (true, p) ∧ p.smbfcnt = 1 := by
  have h := (init_holds .small fun _ => 0).enqueue (show 0 < [1, 2, 3].length by decide) (by decide)
  rw [if_pos (by decide)] at h
  obtain ⟨p, he, -⟩ := h
  obtain ⟨msgs, heq, hc, -⟩ := ring_queue .small (fun _ => 0)
    (.one (.enqueue (by decide) (by decide) he))
  exact ⟨p, he, hc.trans (congrArg List.length heq.symm)⟩

end AspKernel.Mbf
