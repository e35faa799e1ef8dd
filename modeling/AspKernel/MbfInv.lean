import AspKernel.MbfRing

namespace AspKernel.Mbf
set_option autoImplicit true

/-- The messages in the area, in the order in which they come out. -/
def MBFCB.storedLoop (ini : MBFINIB) : Nat → MBFCB → List (List Byte)
  | 0, _ => []
  | n + 1, p =>
    match p.dequeueMessage ini with
    | some (msg, q) => msg :: storedLoop ini n q
    | none => []

def K.stored (cfg : Cfg) (k : K) (b : Nat) : List (List Byte) :=
  MBFCB.storedLoop (cfg.mbfinib b) (k.mbfcb b).smbfcnt (k.mbfcb b)

theorem Holds.storedLoop {ini : MBFINIB} {p : MBFCB} (h : Holds ini p msgs) :
    MBFCB.storedLoop ini msgs.length p = msgs := by
  induction msgs generalizing p with
  | nil => rfl
  | cons m msgs ih =>
    obtain ⟨q, hq, hh, -⟩ := h.dequeue
    simp only [List.length_cons, MBFCB.storedLoop, hq, ih hh]

theorem Holds.stored {k : K} (h : Holds (cfg.mbfinib b) (k.mbfcb b) msgs) :
    k.stored cfg b = msgs := by
  unfold K.stored
  rw [h.cnt]
  exact h.storedLoop

/-- The message that a task waits to send. -/
def K.msg (k : K) (t : Nat) : List Byte := (k.tcb t).winfo.msg

/-- The buffer that a task waits for, to send or to receive. -/
def TCB.sloc (p : TCB) : Option Nat := if p.tstat = .waitSmbf then some p.winfo.mbfcb else none
def TCB.rloc (p : TCB) : Option Nat := if p.tstat = .waitRmbf then some p.winfo.mbfcb else none

/-- A task whose wait has ended. -/
def TCB.awake (p : TCB) (ercd : ER) : TCB :=
  { p with tstat := .runnable, winfo := { p.winfo with tmevtb := false, wercd := ercd } }

namespace K

/-- The same, without the tasks `x`, which have left the queue and are not yet released. -/
def sloc (k : K) (x : List Nat) (t : Nat) : Option Nat := if t ∈ x then none else (k.tcb t).sloc
def rloc (k : K) (x : List Nat) (t : Nat) : Option Nat := if t ∈ x then none else (k.tcb t).rloc

def swaits (k : K) (b : Nat) : List Nat := (k.mbfcb b).swaitQueue
def rwaits (k : K) (b : Nat) : List Nat := (k.mbfcb b).rwaitQueue

@[simp] theorem setMbf_tcb : (setMbf k b p).tcb = k.tcb := rfl
@[simp] theorem setMbf_self : (setMbf k b p).mbfcb b = p := Function.update_self ..
@[simp] theorem setTcb_self : (setTcb k t p).tcb t = p := Function.update_self ..
@[simp] theorem setTcb_mbfcb : (setTcb k t p).mbfcb = k.mbfcb := rfl
@[simp] theorem note_mbfcb : (note k e).mbfcb = k.mbfcb := rfl
@[simp] theorem note_tcb : (note k e).tcb = k.tcb := rfl

theorem setMbf_ne (h : b' ≠ b) : (setMbf k b p).mbfcb b' = k.mbfcb b' := Function.update_of_ne h ..
theorem setTcb_ne (h : t' ≠ t) : (setTcb k t p).tcb t' = k.tcb t' := Function.update_of_ne h ..

theorem makeNonWait_tcb (k : K) (t : Nat) (ercd : ER) (u : Nat) :
    (k.makeNonWait t ercd).tcb u = if u = t then (k.tcb t).awake ercd else k.tcb u :=
  (Function.update_apply ..)

theorem makeNonWait_msg (k : K) (t : Nat) (ercd : ER) : (k.makeNonWait t ercd).msg = k.msg := by
  funext u
  unfold msg
  rw [makeNonWait_tcb]
  split
  · rename_i h
    rw [h]
    rfl
  · rfl

theorem setMbf_swaits : (setMbf k b p).swaits = Function.update k.swaits b p.swaitQueue := by
  funext b'
  by_cases hb : b' = b
  · subst hb
    rw [Function.update_self]
    exact congrArg _ setMbf_self
  · rw [Function.update_of_ne hb]
    exact congrArg _ (setMbf_ne hb)

theorem setMbf_rwaits : (setMbf k b p).rwaits = Function.update k.rwaits b p.rwaitQueue := by
  funext b'
  by_cases hb : b' = b
  · subst hb
    rw [Function.update_self]
    exact congrArg _ setMbf_self
  · rw [Function.update_of_ne hb]
    exact congrArg _ (setMbf_ne hb)

end K

structure Inv (cfg : Cfg) (x : List Nat) (k : K) : Prop where
  swait : Links.Linked (k.sloc x) k.swaits
  rwait : Links.Linked (k.rloc x) k.rwaits
  fits : ∀ t, (k.tcb t).tstat = .waitSmbf →
    0 < (k.msg t).length ∧ (k.msg t).length ≤ (cfg.mbfinib (k.tcb t).winfo.mbfcb).maxmsz
  holds : ∀ b, ∃ msgs, Holds (cfg.mbfinib b) (k.mbfcb b) msgs
  /-- A task waits to receive only where there is nothing to receive. -/
  recv : ∀ b, k.rwaits b ≠ [] → (k.mbfcb b).smbfcnt = 0 ∧ k.swaits b = []
  sorted : ∀ b, (cfg.mbfinib b).mbfatr.has TA_TPRI →
    (k.swaits b).Pairwise fun t u => (k.tcb t).priority ≤ (k.tcb u).priority

theorem TCB.sloc_eq {p : TCB} : p.sloc = some b ↔ p.tstat = .waitSmbf ∧ p.winfo.mbfcb = b := by
  unfold TCB.sloc
  split
  · rename_i h
    exact ⟨fun hb => ⟨h, Option.some.inj hb⟩, fun hb => congrArg some hb.2⟩
  · rename_i h
    exact ⟨nofun, fun hb => absurd hb.1 h⟩

theorem TCB.rloc_eq {p : TCB} : p.rloc = some b ↔ p.tstat = .waitRmbf ∧ p.winfo.mbfcb = b := by
  unfold TCB.rloc
  split
  · rename_i h
    exact ⟨fun hb => ⟨h, Option.some.inj hb⟩, fun hb => congrArg some hb.2⟩
  · rename_i h
    exact ⟨nofun, fun hb => absurd hb.1 h⟩

theorem K.sloc_eq {k : K} : k.sloc x t = some b ↔
    t ∉ x ∧ (k.tcb t).tstat = .waitSmbf ∧ (k.tcb t).winfo.mbfcb = b := by
  unfold K.sloc
  split
  · rename_i hx
    exact ⟨nofun, fun ht => absurd hx ht.1⟩
  · rename_i hx
    rw [TCB.sloc_eq]
    exact ⟨fun ht => ⟨hx, ht⟩, And.right⟩

theorem K.rloc_eq {k : K} : k.rloc x t = some b ↔
    t ∉ x ∧ (k.tcb t).tstat = .waitRmbf ∧ (k.tcb t).winfo.mbfcb = b := by
  unfold K.rloc
  split
  · rename_i hx
    exact ⟨nofun, fun ht => absurd hx ht.1⟩
  · rename_i hx
    rw [TCB.rloc_eq]
    exact ⟨fun ht => ⟨hx, ht⟩, And.right⟩

theorem Inv.mem_swaits (h : Inv cfg x k) : t ∈ k.swaits b ↔
    t ∉ x ∧ (k.tcb t).tstat = .waitSmbf ∧ (k.tcb t).winfo.mbfcb = b := h.swait.mem.trans K.sloc_eq

theorem Inv.mem_rwaits (h : Inv cfg x k) : t ∈ k.rwaits b ↔
    t ∉ x ∧ (k.tcb t).tstat = .waitRmbf ∧ (k.tcb t).winfo.mbfcb = b := h.rwait.mem.trans K.rloc_eq

theorem Inv.note (h : Inv cfg x k) (e : Ended) : Inv cfg x (k.note e) :=
  ⟨h.swait, h.rwait, h.fits, h.holds, h.recv, h.sorted⟩

/-- A change of a task that leaves its place in the queues. -/
theorem Inv.setTcb (h : Inv cfg x k) (hs : (k.setTcb t p).sloc y = k.sloc x)
    (hr : (k.setTcb t p).rloc y = k.rloc x)
    (hf : p.tstat = .waitSmbf → 0 < p.winfo.msg.length ∧
      p.winfo.msg.length ≤ (cfg.mbfinib p.winfo.mbfcb).maxmsz)
    (hp : ∀ b, (cfg.mbfinib b).mbfatr.has TA_TPRI = true → t ∈ k.swaits b →
      p.priority = (k.tcb t).priority) : Inv cfg y (k.setTcb t p) where
  swait := hs ▸ h.swait
  rwait := hr ▸ h.rwait
  fits u hu := by
    unfold K.msg
    by_cases hut : u = t
    · subst hut
      rw [K.setTcb_self] at hu ⊢
      exact hf hu
    · rw [K.setTcb_ne hut] at hu ⊢
      exact h.fits u hu
  holds := h.holds
  recv := h.recv
  sorted b hb := by
    have hpri (u) (hu : u ∈ k.swaits b) : ((k.setTcb t p).tcb u).priority =
        (k.tcb u).priority := by
      by_cases hut : u = t
      · subst hut
        rw [K.setTcb_self]
        exact hp b hb hu
      · rw [K.setTcb_ne hut]
    refine (h.sorted b hb).imp_of_mem fun ht hu hle => ?_
    rw [hpri _ ht, hpri _ hu]
    exact hle

/-- A task that has left the queues changes in any way. -/
theorem Inv.hidden (h : Inv cfg (t :: x) k)
    (hp : p.tstat ≠ .waitSmbf ∨ (k.tcb t).tstat = .waitSmbf ∧ p.winfo = (k.tcb t).winfo) : Inv cfg (t :: x) (k.setTcb t p) := by
  refine h.setTcb ?_ ?_ (fun hs => ?_) fun b _ ht => absurd List.mem_cons_self (h.mem_swaits.1 ht).1
  · funext u
    unfold K.sloc
    by_cases hut : u = t
    · rw [hut, if_pos List.mem_cons_self, if_pos List.mem_cons_self]
    · rw [K.setTcb_ne hut]
  · funext u
    unfold K.rloc
    by_cases hut : u = t
    · rw [hut, if_pos List.mem_cons_self, if_pos List.mem_cons_self]
    · rw [K.setTcb_ne hut]
  · obtain ⟨ht, hw⟩ := hp.resolve_left fun hn => hn hs
    rw [hw]
    exact h.fits t ht

/-- A task that has left the queues waits no longer. -/
theorem Inv.awaken (h : Inv cfg (t :: x) k) (hs : p.tstat ≠ .waitSmbf) (hr : p.tstat ≠ .waitRmbf) :
    Inv cfg x (k.setTcb t p) := by
  refine h.setTcb ?_ ?_ (fun hp => absurd hp hs) fun b _ ht =>
    absurd List.mem_cons_self (h.mem_swaits.1 ht).1
  · funext u
    unfold K.sloc TCB.sloc
    by_cases hut : u = t
    · subst hut
      rw [K.setTcb_self, if_neg hs, if_pos List.mem_cons_self, ite_self]
    · rw [K.setTcb_ne hut]
      simp only [List.mem_cons, hut, false_or]
  · funext u
    unfold K.rloc TCB.rloc
    by_cases hut : u = t
    · subst hut
      rw [K.setTcb_self, if_neg hr, if_pos List.mem_cons_self, ite_self]
    · rw [K.setTcb_ne hut]
      simp only [List.mem_cons, hut, false_or]

theorem Inv.makeNonWait (h : Inv cfg (t :: x) k) (ercd : ER) : Inv cfg x (k.makeNonWait t ercd) :=
  (h.awaken (show Tstat.runnable ≠ .waitSmbf from nofun)
    (show Tstat.runnable ≠ .waitRmbf from nofun)).note _

/-- A change of a task that does not wait to send or receive. -/
theorem Inv.idle (h : Inv cfg x k) (hs : (k.tcb t).sloc = none) (hr : (k.tcb t).rloc = none)
    (hs' : p.sloc = none) (hr' : p.rloc = none) : Inv cfg x (k.setTcb t p) := by
  refine h.setTcb ?_ ?_ (fun hp => ?_) fun b _ ht => ?_
  · funext u
    unfold K.sloc
    by_cases hut : u = t
    · subst hut
      rw [K.setTcb_self, hs, hs']
    · rw [K.setTcb_ne hut]
  · funext u
    unfold K.rloc
    by_cases hut : u = t
    · subst hut
      rw [K.setTcb_self, hr, hr']
    · rw [K.setTcb_ne hut]
  · rw [TCB.sloc, if_pos hp] at hs'
    cases hs'
  · rw [h.swait.mem, K.sloc, hs, ite_self] at ht
    cases ht

theorem K.setMbf_setMbf (k : K) : (k.setMbf b p).setMbf b q = k.setMbf b q := by
  unfold K.setMbf
  simp only [Function.update_idem]

theorem Holds.queues {ini : MBFINIB} {p : MBFCB} (h : Holds ini p msgs) (s r : List Nat) :
    Holds ini { p with swaitQueue := s, rwaitQueue := r } msgs :=
  ⟨h.cnt, h.size, h.head, h.head_mod, h.tail, h.fits, h.bytes⟩

/-- A change of a buffer. -/
theorem Inv.setMbf (h : Inv cfg x k)
    (hs : Links.Linked (k.sloc y) (Function.update k.swaits b p.swaitQueue))
    (hr : Links.Linked (k.rloc y) (Function.update k.rwaits b p.rwaitQueue))
    (hh : ∃ msgs, Holds (cfg.mbfinib b) p msgs)
    (hrecv : p.rwaitQueue ≠ [] → p.smbfcnt = 0 ∧ p.swaitQueue = [])
    (hsort : (cfg.mbfinib b).mbfatr.has TA_TPRI →
      p.swaitQueue.Pairwise fun t u => (k.tcb t).priority ≤ (k.tcb u).priority) :
    Inv cfg y (k.setMbf b p) where
  swait := K.setMbf_swaits ▸ hs
  rwait := K.setMbf_rwaits ▸ hr
  fits := h.fits
  holds b' := by
    by_cases hb : b' = b
    · subst hb
      rw [K.setMbf_self]
      exact hh
    · rw [K.setMbf_ne hb]
      exact h.holds b'
  recv b' := by
    rw [K.setMbf_swaits, K.setMbf_rwaits]
    by_cases hb : b' = b
    · subst hb
      rw [K.setMbf_self, Function.update_self, Function.update_self]
      exact hrecv
    · rw [K.setMbf_ne hb, Function.update_of_ne hb, Function.update_of_ne hb]
      exact h.recv b'
  sorted b' := by
    rw [K.setMbf_swaits]
    by_cases hb : b' = b
    · subst hb
      rw [Function.update_self]
      exact hsort
    · rw [Function.update_of_ne hb]
      exact h.sorted b'

/-- The bytes of a buffer change, the queues do not. -/
theorem Inv.ring (h : Inv cfg x k) (hh : Holds (cfg.mbfinib b) p msgs)
    (hs : p.swaitQueue = k.swaits b) (hr : p.rwaitQueue = k.rwaits b)
    (hn : k.rwaits b ≠ [] → p.smbfcnt = 0) : Inv cfg x (k.setMbf b p) := by
  refine h.setMbf ?_ ?_ ⟨msgs, hh⟩ (fun hne => ?_) fun hb => ?_
  · rw [hs, Function.update_eq_self]
    exact h.swait
  · rw [hr, Function.update_eq_self]
    exact h.rwait
  · rw [hr] at hne
    exact ⟨hn hne, hs.trans (h.recv b hne).2⟩
  · rw [hs]
    exact h.sorted b hb

theorem K.sloc_cons (k : K) : k.sloc (t :: x) = Function.update (k.sloc x) t none := by
  funext u
  by_cases hu : u = t
  · subst hu
    rw [Function.update_self, K.sloc, if_pos List.mem_cons_self]
  · rw [Function.update_of_ne hu, K.sloc, K.sloc]
    simp only [List.mem_cons, hu, false_or]

theorem K.rloc_cons (k : K) : k.rloc (t :: x) = Function.update (k.rloc x) t none := by
  funext u
  by_cases hu : u = t
  · subst hu
    rw [Function.update_self, K.rloc, if_pos List.mem_cons_self]
  · rw [Function.update_of_ne hu, K.rloc, K.rloc]
    simp only [List.mem_cons, hu, false_or]

theorem K.sloc_none {k : K} (h : (k.tcb t).tstat ≠ .waitSmbf) : k.sloc x t = none := by
  rw [K.sloc, TCB.sloc, if_neg h, ite_self]

theorem K.rloc_none {k : K} (h : (k.tcb t).tstat ≠ .waitRmbf) : k.rloc x t = none := by
  rw [K.rloc, TCB.rloc, if_neg h, ite_self]

/-- A task leaves the queue of an object that it is in. -/
theorem linked_erase {loc : Nat → Option Nat} {queue : Nat → List Nat}
    (h : Links.Linked loc queue) (ht : t ∈ queue b) :
    Links.Linked (Function.update loc t none) (Function.update queue b ((queue b).erase t)) := by
  have hd := h.delete t
  rwa [show Links.delete queue t = Function.update queue b ((queue b).erase t) from ?_] at hd
  funext b'
  by_cases hb : b' = b
  · subst hb
    rw [Function.update_self]
    rfl
  · rw [Function.update_of_ne hb]
    refine Links.delete_eq_self h fun hl => hb ?_
    rw [h.mem, hl] at ht
    exact Option.some.inj ht

theorem Inv.leaveS (h : Inv cfg x k) (ht : t ∈ k.swaits b) :
    Inv cfg (t :: x) (k.setMbf b { k.mbfcb b with swaitQueue := (k.swaits b).erase t }) := by
  obtain ⟨msgs, hh⟩ := h.holds b
  have hrnone : k.rloc x t = none := by
    refine K.rloc_none fun hr => ?_
    rw [(h.mem_swaits.1 ht).2.1] at hr
    cases hr
  refine h.setMbf ?_ ?_ ⟨msgs, hh.queues _ _⟩ (fun hr => ?_) fun hb => ?_
  · rw [K.sloc_cons]
    exact linked_erase h.swait ht
  · rw [K.rloc_cons, Function.update_eq_self_iff.2 hrnone.symm]
    exact (Function.update_eq_self b k.rwaits).symm ▸ h.rwait
  · obtain ⟨hn, hs⟩ := h.recv b hr
    rw [hs] at ht
    cases ht
  · exact (h.sorted b hb).sublist List.erase_sublist

theorem Inv.leaveR (h : Inv cfg x k) (ht : t ∈ k.rwaits b) :
    Inv cfg (t :: x) (k.setMbf b { k.mbfcb b with rwaitQueue := (k.rwaits b).erase t }) := by
  obtain ⟨msgs, hh⟩ := h.holds b
  have hsnone : k.sloc x t = none := by
    refine K.sloc_none fun hs => ?_
    rw [(h.mem_rwaits.1 ht).2.1] at hs
    cases hs
  refine h.setMbf ?_ ?_ ⟨msgs, hh.queues _ _⟩ (fun _ => ?_) fun hb => ?_
  · rw [K.sloc_cons, Function.update_eq_self_iff.2 hsnone.symm]
    exact (Function.update_eq_self b k.swaits).symm ▸ h.swait
  · rw [K.rloc_cons]
    exact linked_erase h.rwait ht
  · refine h.recv b fun hr => ?_
    rw [hr] at ht
    cases ht
  · exact h.sorted b hb

/-- A task that has been made to wait enters a queue. -/
theorem Inv.enterS (h : Inv cfg (t :: x) k) (ht : (k.tcb t).sloc = some b) (hx : t ∉ x)
    (hr : k.rwaits b = []) (hp : l.Perm (t :: k.swaits b))
    (hsort : (cfg.mbfinib b).mbfatr.has TA_TPRI →
      l.Pairwise fun t u => (k.tcb t).priority ≤ (k.tcb u).priority) :
    Inv cfg x (k.setMbf b { k.mbfcb b with swaitQueue := l }) := by
  obtain ⟨msgs, hh⟩ := h.holds b
  have hloc : Function.update (k.sloc (t :: x)) t (some b) = k.sloc x := by
    rw [K.sloc_cons, Function.update_idem, Function.update_eq_self_iff, K.sloc, if_neg hx, ht]
  have hrloc : k.rloc (t :: x) = k.rloc x := by
    rw [K.rloc_cons, Function.update_eq_self_iff]
    refine (K.rloc_none fun hr => ?_).symm
    rw [(TCB.sloc_eq.1 ht).1] at hr
    cases hr
  refine h.setMbf ?_ ?_ ⟨msgs, hh.queues _ _⟩ (fun hne => absurd hr hne) hsort
  · rw [← hloc]
    exact h.swait.insert (by rw [K.sloc, if_pos List.mem_cons_self]) hp
  · rw [← hrloc]
    exact (Function.update_eq_self b k.rwaits).symm ▸ h.rwait

theorem Inv.enterR (h : Inv cfg (t :: x) k) (ht : (k.tcb t).rloc = some b) (hx : t ∉ x)
    (hs : k.swaits b = []) (hn : (k.mbfcb b).smbfcnt = 0) :
    Inv cfg x (k.setMbf b { k.mbfcb b with rwaitQueue := k.rwaits b ++ [t] }) := by
  obtain ⟨msgs, hh⟩ := h.holds b
  have hloc : Function.update (k.rloc (t :: x)) t (some b) = k.rloc x := by
    rw [K.rloc_cons, Function.update_idem, Function.update_eq_self_iff, K.rloc, if_neg hx, ht]
  have hsloc : k.sloc (t :: x) = k.sloc x := by
    rw [K.sloc_cons, Function.update_eq_self_iff]
    refine (K.sloc_none fun hs => ?_).symm
    rw [(TCB.rloc_eq.1 ht).1] at hs
    cases hs
  refine h.setMbf ?_ ?_ ⟨msgs, hh.queues _ _⟩ (fun _ => ⟨hn, hs⟩) fun hb => ?_
  · rw [← hsloc]
    exact (Function.update_eq_self b k.swaits).symm ▸ h.swait
  · rw [← hloc]
    exact h.rwait.insert (by rw [K.rloc, if_pos List.mem_cons_self])
      (List.perm_append_singleton _ _)
  · exact h.sorted b hb

/-- No sender waits while it could proceed. -/
def Prompt (k : K) (b : Nat) : Prop :=
  ∀ t q, k.swaits b = t :: q → (k.mbfcb b).fmbfsz < allocsz (k.msg t)

/-- The tasks `ts`, the first of the queue, have put their messages in, and wait no longer. -/
structure Signalled (cfg : Cfg) (b : Nat) (k k' : K) (ts : List Nat) : Prop where
  queue : k.swaits b = ts ++ k'.swaits b
  rqueue : k'.rwaits b = k.rwaits b
  other : ∀ b', b' ≠ b → k'.mbfcb b' = k.mbfcb b'
  tcb : ∀ t, k'.tcb t = if t ∈ ts then (k.tcb t).awake E_OK else k.tcb t
  ended : k'.ended = k.ended ++ ts.map fun t => .sent t b (k.msg t)
  stored : k'.stored cfg b = k.stored cfg b ++ ts.map k.msg
  prompt : Prompt k' b

theorem signalLoop_spec (h : Inv cfg x k) (hq : k.swaits b = q) :
    ∃ k' ts, K.signalLoop cfg b q k = some k' ∧ Signalled cfg b k k' ts ∧ Inv cfg x k' := by
  induction q generalizing k with
  | nil =>
    refine ⟨k, [], rfl, ⟨rfl, rfl, fun _ _ => rfl, fun _ => rfl, (List.append_nil _).symm,
      (List.append_nil _).symm, fun t q hp => ?_⟩, h⟩
    rw [hq] at hp
    cases hp
  | cons t q ih =>
    have ht : t ∈ k.swaits b := hq ▸ List.mem_cons_self
    obtain ⟨-, htst, hmbf⟩ := h.mem_swaits.1 ht
    obtain ⟨h0, hle⟩ := h.fits t htst
    obtain ⟨msgs, hh⟩ := h.holds b
    rw [hmbf] at hle
    have he := hh.enqueue h0 hle
    unfold K.signalLoop
    split at he
    · obtain ⟨p, he, hp, hsq, hrq⟩ := he
      have hnr : k.rwaits b ≠ [] → p.smbfcnt = 0 := by
        intro hr
        rw [(h.recv b hr).2] at hq
        cases hq
      have h1 := h.ring hp hsq hrq hnr
      have hq1 : (k.setMbf b p).swaits b = t :: q := by
        rw [K.setMbf_swaits, Function.update_self, hsq]
        exact hq
      have h2 := h1.leaveS (t := t) (b := b) (hq1 ▸ List.mem_cons_self)
      rw [K.setMbf_self, K.setMbf_setMbf, hq1, List.erase_cons_head] at h2
      have h3 := h2.makeNonWait E_OK
      have hq3 : ((k.setMbf b { p with swaitQueue := q }).makeNonWait t E_OK).swaits b = q :=
        congrArg MBFCB.swaitQueue (K.setMbf_self (k := k))
      have hmsg : ((k.setMbf b { p with swaitQueue := q }).makeNonWait t E_OK).msg = k.msg :=
        K.makeNonWait_msg ..
      obtain ⟨k', ts, hk', hsig, hinv⟩ := ih h3 hq3
      have hqs := hsig.queue
      rw [hq3] at hqs
      refine ⟨k', t :: ts, ?_, ⟨?_, ?_, fun b' hb => ?_, fun u => ?_, ?_, ?_, hsig.prompt⟩, hinv⟩
      · change (k.mbfcb b).enqueueMessage (cfg.mbfinib b) (k.msg t) >>= _ = _
        rw [he]
        exact hk'
      · rw [hq, hqs]
        rfl
      · refine hsig.rqueue.trans ?_
        exact (congrArg MBFCB.rwaitQueue K.setMbf_self).trans hrq
      · exact (hsig.other b' hb).trans (K.setMbf_ne hb)
      · rw [hsig.tcb, K.makeNonWait_tcb, K.setMbf_tcb]
        have hnd := h.swait.nodup b
        rw [hq] at hnd
        have hsub (hu : u ∈ ts) : u ∈ q := hqs ▸ List.mem_append_left _ hu
        by_cases hut : u = t
        · subst hut
          rw [if_neg fun hu => (List.nodup_cons.1 hnd).1 (hsub hu), if_pos rfl,
            if_pos List.mem_cons_self]
        · simp only [hut, ↓reduceIte, List.mem_cons, false_or]
      · rw [hsig.ended]
        have hnote : ((k.setMbf b { p with swaitQueue := q }).makeNonWait t E_OK).ended =
            k.ended ++ [.sent t b (k.msg t)] := by
          unfold K.makeNonWait TCB.ending
          simp only [K.setMbf_tcb, htst, hmbf]
          rfl
        rw [hnote, hmsg, List.append_assoc]
        rfl
      · have hst : K.stored cfg ((k.setMbf b { p with swaitQueue := q }).makeNonWait t E_OK) b =
            msgs ++ [k.msg t] := by
          refine Holds.stored ?_
          exact (K.setMbf_self (k := k) (b := b) (p := { p with swaitQueue := q })).symm ▸
            hp.queues q p.rwaitQueue
        rw [hsig.stored, hst, hh.stored, hmsg, List.append_assoc]
        rfl
    · rename_i hf
      refine ⟨k, [], ?_, ⟨rfl, rfl, fun _ _ => rfl, fun _ => rfl, (List.append_nil _).symm,
        (List.append_nil _).symm, fun u q' hp => ?_⟩, h⟩
      · change (k.mbfcb b).enqueueMessage (cfg.mbfinib b) (k.msg t) >>= _ = _
        rw [he]
        rfl
      · rw [hq] at hp
        cases hp
        exact Nat.lt_of_not_le hf

theorem messagebufSignal_spec (h : Inv cfg x k) (b : Nat) :
    ∃ k' ts, k.messagebufSignal cfg b = some k' ∧ Signalled cfg b k k' ts ∧ Inv cfg x k' :=
  signalLoop_spec h rfl

end AspKernel.Mbf
