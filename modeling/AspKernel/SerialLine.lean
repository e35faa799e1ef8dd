import AspKernel.SerialLost
import AspKernel.Lib.Ring

namespace AspKernel.Serial
set_option autoImplicit true

/-- A device that records the characters that are handed to it. -/
def Sio.line {δ : Type} (D : Sio δ) : Sio (δ × List Char) where
  sndChr d c :=
    let r := D.sndChr d.1 c
    (r.1, r.2, if r.1 then d.2 ++ [c] else d.2)
  enaCbr d := (D.enaCbr d.1, d.2)
  disCbr d := (D.disCbr d.1, d.2)
  irdy d := D.irdy d.1
  tick d := (D.tick d.1, d.2)

/-- What goes through a port: a character of a task is accepted, a character of the tasks is handed
to the device, or START or STOP is. -/
inductive Obs
  | acc (c : Char) | data (c : Char) | fc (c : Char)

namespace Obs

def accepted (l : List Obs) : List Char := l.filterMap fun | acc c => some c | _ => none
def sent (l : List Obs) : List Char := l.filterMap fun | data c => some c | _ => none
def flow (l : List Obs) : List Char := l.filterMap fun | fc c => some c | _ => none
/-- All that is handed to the device. -/
def line (l : List Obs) : List Char :=
  l.filterMap fun | data c => some c | fc c => some c | acc _ => none

@[simp] theorem accepted_append (l l' : List Obs) :
    accepted (l ++ l') = accepted l ++ accepted l' := List.filterMap_append

@[simp] theorem sent_append (l l' : List Obs) : sent (l ++ l') = sent l ++ sent l' :=
  List.filterMap_append

@[simp] theorem flow_append (l l' : List Obs) : flow (l ++ l') = flow l ++ flow l' :=
  List.filterMap_append

@[simp] theorem line_append (l l' : List Obs) : line (l ++ l') = line l ++ line l' :=
  List.filterMap_append

end Obs

section
variable {δ : Type}

/-- The character that the next operation of a task gives to the port. -/
def Sys.accepts (k : Sys δ) : Event → List Char
  | .run t =>
    match k.task t with
    | .run (.call (.wriChr c) _) => [c]
    | _ => []
  | _ => []

/-- The callback for the transmission sends START or STOP. -/
def Event.sendsFc (p : SPCB δ) : Event → Bool
  | .irdySnd => p.rcvFcChr != NUL
  | _ => false

/-- What a step hands to the device is START or STOP where the callback sends it, or the step
changes `rcv_stopped`. -/
def Sys.obs (k : Sys (δ × List Char)) (e : Event) (k' : Sys (δ × List Char)) : List Obs :=
  (k.accepts e).map .acc ++
    (k'.spcb.siopcb.2.drop k.spcb.siopcb.2.length).map
      (if e.sendsFc k.spcb || k.spcb.rcvStopped != k'.spcb.rcvStopped then .fc else .data)

/-- A port that has just been opened, with nothing on its line. -/
def Sys.idle : Sys (Register × List Char) :=
  .opened (.cleared (⟨false, false⟩, [])) (⟨false, false⟩, [])

/-- What has gone through a port since it was opened. -/
abbrev observed (D : Sio δ) (ini : SPINIB) (k : Sys (δ × List Char)) (es : List Event) :
    List Obs := Trans.observe (Sys.step D.line ini) Sys.obs k es

/-- The input is to go on, once a character has been read. -/
def SPCB.restartsRcv (ini : SPINIB) (p : SPCB δ) : Bool :=
  p.rcvStopped && decide (dec p.rcvCount ≤ bufcntStart ini.rcvBufsz)

/-- The input is to stop, once the character has been stored. -/
def SPCB.stopsRcv (ini : SPINIB) (p : SPCB δ) (c : Char) : Bool :=
  !(p.ioc IOCTL_FCSND && c == FC_STOP) && !(p.sndStopped && (c == FC_START || p.ioc IOCTL_FCANY)) &&
    !(p.ioc IOCTL_FCSND && c == FC_START) && p.rcvCount != ini.rcvBufsz &&
    (p.ioc IOCTL_FCRCV && !p.rcvStopped && decide (bufcntStop ini.rcvBufsz ≤ inc p.rcvCount))

/-- START or STOP is handed to the device at once. -/
def Event.direct (D : Sio δ) (ini : SPINIB) (k : Sys (δ × List Char)) : Event → Bool
  | .run t =>
    match k.task t with
    | .run (.call .reaChr _) => k.spcb.restartsRcv ini && (D.sndChr k.spcb.siopcb.1 FC_START).1
    | _ => false
  | .irdyRcv c => k.spcb.stopsRcv ini c && (D.sndChr k.spcb.siopcb.1 FC_STOP).1
  | _ => false

/-- What a port is as seen from the line: the characters to be sent, those that have been handed
over, the START or STOP that is to be sent, and whether the input is stopped. -/
structure Port where
  contents : List Char
  line : List Char
  fcChr : Char
  stopped : Bool

def SPCB.port (ini : SPINIB) (p : SPCB (δ × List Char)) : Port :=
  ⟨Ring.slots p.sndBuffer ini.sndBufsz p.sndReadPtr p.sndCount, p.siopcb.2, p.rcvFcChr,
    p.rcvStopped⟩

def fcChr (stopped : Bool) : Char := if stopped then FC_STOP else FC_START

/-- What a step does to a port, which gets the characters `acc`: `cb` where the callback sends START
or STOP, `d` where one of them is sent at once. -/
inductive Emit (v : Port) : (acc : List Char) → (cb d : Bool) → Port → Prop
  | quiet : Emit v acc false false { v with contents := v.contents ++ acc }
  | data (h : v.contents ++ acc = c :: l) :
    Emit v acc false false { v with contents := l, line := v.line ++ [c] }
  | direct : Emit v [] false true
    { v with line := v.line ++ [fcChr !v.stopped], stopped := !v.stopped }
  | pend : Emit v [] false false { v with fcChr := fcChr !v.stopped, stopped := !v.stopped }
  | callback (h : v.fcChr ≠ NUL) :
    Emit v [] true false { v with line := v.line ++ [v.fcChr], fcChr := NUL }

namespace Emit
variable {v v' : Port}

/-- What is seen of a step. -/
def obs (v : Port) (acc : List Char) (cb : Bool) (v' : Port) : List Obs :=
  acc.map .acc ++ (v'.line.drop v.line.length).map
    (if cb || v.stopped != v'.stopped then .fc else .data)

theorem obs_none (h : v'.line = v.line) : obs v acc cb v' = acc.map .acc := by
  unfold obs
  rw [h, List.drop_length, List.map_nil, List.append_nil]

theorem obs_one (h : v'.line = v.line ++ [c]) : obs v acc cb v' =
    acc.map .acc ++ [if cb || v.stopped != v'.stopped then .fc c else .data c] := by
  unfold obs
  rw [h, List.drop_left, List.map_singleton]
  split
  · rfl
  · rfl

theorem obs_data (v : Port) (acc l : List Char) (c : Char) :
    obs v acc false { v with contents := l, line := v.line ++ [c] } = acc.map .acc ++ [.data c] := by
  rw [obs_one rfl, Bool.false_or, bne_self_eq_false]
  rfl

theorem accepted_acc (acc : List Char) : Obs.accepted (acc.map .acc) = acc := by
  unfold Obs.accepted
  rw [List.filterMap_map]
  exact List.filterMap_some

theorem sent_acc (acc : List Char) : Obs.sent (acc.map .acc) = [] := by
  unfold Obs.sent
  rw [List.filterMap_map]
  exact List.filterMap_eq_nil_iff.2 fun _ _ => rfl

theorem flow_acc (acc : List Char) : Obs.flow (acc.map .acc) = [] := by
  unfold Obs.flow
  rw [List.filterMap_map]
  exact List.filterMap_eq_nil_iff.2 fun _ _ => rfl

/-- The characters of the tasks are sent in the order in which they are accepted. -/
theorem order (h : Emit v acc cb d v') :
    v.contents ++ Obs.accepted (obs v acc cb v') = Obs.sent (obs v acc cb v') ++ v'.contents := by
  cases h with
  | quiet =>
    rw [obs_none, accepted_acc, sent_acc]
    · rfl
    · rfl
  | data he =>
    rw [obs_data, Obs.accepted_append, Obs.sent_append, accepted_acc, sent_acc]
    exact (congrArg (v.contents ++ ·) (List.append_nil acc)).trans he
  | direct =>
    rw [obs_one rfl, Bool.false_or, if_pos (by simp)]
    exact List.append_nil _
  | pend =>
    rw [obs_none]
    · exact List.append_nil _
    · rfl
  | callback he =>
    rw [obs_one rfl, Bool.true_or]
    exact List.append_nil _

theorem line_obs (h : v'.line = v.line ++ l) : Obs.line (obs v acc cb v') = l := by
  unfold obs
  rw [h, List.drop_left, Obs.line_append]
  have hacc : Obs.line (acc.map .acc) = [] := by
    unfold Obs.line
    rw [List.filterMap_map]
    exact List.filterMap_eq_nil_iff.2 fun _ _ => rfl
  rw [hacc, List.nil_append]
  unfold Obs.line
  rw [List.filterMap_map]
  split
  · exact List.filterMap_some
  · exact List.filterMap_some

theorem line_eq (h : Emit v acc cb d v') : v'.line = v.line ++ Obs.line (obs v acc cb v') := by
  obtain ⟨l, hl⟩ : ∃ l, v'.line = v.line ++ l := by
    cases h with
    | quiet => exact ⟨[], (List.append_nil _).symm⟩
    | data => exact ⟨_, rfl⟩
    | direct => exact ⟨_, rfl⟩
    | pend => exact ⟨[], (List.append_nil _).symm⟩
    | callback => exact ⟨_, rfl⟩
  rw [line_obs hl, hl]

/-- The START or STOP that was sent last, or is to be sent, agrees with `rcv_stopped`. -/
structure Agrees (l : List Char) (v : Port) : Prop where
  idle : v.fcChr = NUL → ∀ c ∈ l.getLast?, c = fcChr v.stopped
  none : v.fcChr = NUL → l = [] → v.stopped = false
  pending : v.fcChr ≠ NUL → v.fcChr = fcChr v.stopped

theorem fcChr_ne_nul (b : Bool) : fcChr b ≠ NUL := by
  cases b with
  | false => decide
  | true => decide

theorem fcChr_not (b : Bool) : fcChr (!b) ≠ fcChr b := by
  cases b with
  | false => decide
  | true => decide

/-- Unless one of START and STOP overtakes the other, they agree with `rcv_stopped`. -/
theorem agrees (h : Emit v acc cb d v') (ha : Agrees l v) :
    Agrees (l ++ Obs.flow (obs v acc cb v')) v' ↔ (d && v.fcChr != NUL) = false := by
  cases h with
  | quiet =>
    rw [obs_none, flow_acc, List.append_nil]
    · exact iff_of_true ⟨ha.idle, ha.none, ha.pending⟩ rfl
    · rfl
  | data he =>
    rw [obs_data, Obs.flow_append, flow_acc, List.nil_append]
    refine iff_of_true ?_ rfl
    rw [show Obs.flow [.data _] = [] from rfl, List.append_nil]
    exact ⟨ha.idle, ha.none, ha.pending⟩
  | direct =>
    rw [obs_one rfl, Bool.false_or, if_pos (by simp)]
    by_cases hn : v.fcChr = NUL
    · refine iff_of_true ⟨fun _ c hc => ?_, fun _ he => ?_, fun he => absurd hn he⟩ (by simp [hn])
      · rw [show Obs.flow (List.map Obs.acc [] ++ [.fc (fcChr !v.stopped)]) = [fcChr !v.stopped]
          from rfl, List.getLast?_concat] at hc
        exact (Option.mem_some.1 hc).symm
      · exact absurd (List.append_eq_nil_iff.1 he).2 (List.cons_ne_nil _ _)
    · refine iff_of_false (fun hb => ?_) (by simp [hn])
      exact fcChr_not v.stopped ((hb.pending hn).symm.trans (ha.pending hn))
  | pend =>
    rw [obs_none]
    · refine iff_of_true ⟨fun he => ?_, fun he => ?_, fun _ => rfl⟩ rfl
      · exact absurd he (fcChr_ne_nul _)
      · exact absurd he (fcChr_ne_nul _)
    · rfl
  | callback hn =>
    rw [obs_one rfl, Bool.true_or]
    refine iff_of_true ⟨fun _ c hc => ?_, fun _ he => ?_, fun he => absurd rfl he⟩ rfl
    · rw [if_pos rfl, show Obs.flow (List.map Obs.acc [] ++ [.fc v.fcChr]) = [v.fcChr] from rfl,
        List.getLast?_concat] at hc
      rw [← Option.mem_some.1 hc]
      exact ha.pending hn
    · exact absurd (List.append_eq_nil_iff.1 he).2 (List.cons_ne_nil _ _)

end Emit

end

section
variable {δ : Type} {D : Sio δ} {ini : SPINIB} {p q : SPCB (δ × List Char)}

/-- The send buffer is a ring. -/
structure SPCB.RingOk (ini : SPINIB) (p : SPCB δ) : Prop where
  read_lt : p.sndReadPtr < ini.sndBufsz
  count_le : p.sndCount ≤ ini.sndBufsz
  write_eq : p.sndWritePtr = (p.sndReadPtr + p.sndCount) % ini.sndBufsz

theorem incPtr_eq (h : i < n) (hn : n < 2 ^ 32) : incPtr i n = (i + 1) % n := by
  have hi : inc i = i + 1 := Nat.mod_eq_of_lt (by omega)
  unfold incPtr
  rw [hi]
  split
  · rename_i he
    rw [he, Nat.mod_self]
  · rw [Nat.mod_eq_of_lt (by omega)]

theorem Emit.direct_of {v : Port} (h : v.stopped = !b) :
    Emit v [] false true { v with line := v.line ++ [fcChr b], stopped := b } := by
  have he := Emit.direct (v := v)
  rwa [h, Bool.not_not] at he

theorem Emit.pend_of {v : Port} (h : v.stopped = !b) :
    Emit v [] false false { v with fcChr := fcChr b, stopped := b } := by
  have he := Emit.pend (v := v)
  rwa [h, Bool.not_not] at he

/-- Nothing is handed over, and nothing is accepted. -/
theorem Emit.rest (h : q.port ini = p.port ini) : Emit (p.port ini) [] false false (q.port ini) := by
  have he : Emit (p.port ini) [] false false _ := .quiet
  rw [List.append_nil] at he
  exact h ▸ he

/-- The first character of the buffer is handed over. -/
theorem Emit.sent_of (h : (p.port ini).contents = c :: (q.port ini).contents)
    (hl : q.siopcb.2 = p.siopcb.2 ++ [c]) (hf : q.rcvFcChr = p.rcvFcChr)
    (hs : q.rcvStopped = p.rcvStopped) : Emit (p.port ini) [] false false (q.port ini) := by
  have he : q.port ini =
      { p.port ini with contents := (q.port ini).contents, line := p.siopcb.2 ++ [c] } := by
    rw [← hl]
    unfold SPCB.port
    rw [hf, hs]
  rw [he]
  exact .data ((List.append_nil _).trans h)

/-- The attempt to hand over a character either records it or leaves the line as it is. -/
theorem serialSndChr_line (D : Sio δ) (p : SPCB (δ × List Char)) (c : Char) :
    (D.sndChr p.siopcb.1 c).1 = true ∧ (∃ d, p.serialSndChr D.line c =
      (true, { p with siopcb := (d, p.siopcb.2 ++ [c]) })) ∨
    (D.sndChr p.siopcb.1 c).1 = false ∧ ∃ d, p.serialSndChr D.line c =
      (false, { p with siopcb := (d, p.siopcb.2) }) := by
  unfold SPCB.serialSndChr Sio.line
  cases hs : (D.sndChr p.siopcb.1 c).1 with
  | true =>
    simp only [hs, ↓reduceIte]
    exact .inl ⟨trivial, _, rfl⟩
  | false =>
    simp only [hs, Bool.false_eq_true, ↓reduceIte]
    exact .inr ⟨trivial, _, rfl⟩

/-- A character that is put into the send buffer is the last one there. -/
theorem SPCB.RingOk.put (h : p.RingOk ini) (hlt : p.sndCount < ini.sndBufsz) (c : Char) :
    SPCB.RingOk ini { p with
      sndBuffer := Function.update p.sndBuffer p.sndWritePtr c
      sndWritePtr := incPtr p.sndWritePtr ini.sndBufsz
      sndCount := inc p.sndCount } ∧
    SPCB.port ini { p with
      sndBuffer := Function.update p.sndBuffer p.sndWritePtr c
      sndWritePtr := incPtr p.sndWritePtr ini.sndBufsz
      sndCount := inc p.sndCount } =
      { p.port ini with contents := (p.port ini).contents ++ [c] } := by
  have hb := ini.snd_lt
  have hi : inc p.sndCount = p.sndCount + 1 := Nat.mod_eq_of_lt (by omega)
  have hw : p.sndWritePtr < ini.sndBufsz := h.write_eq ▸ Nat.mod_lt _ ini.snd_pos
  constructor
  · refine ⟨h.read_lt, hi ▸ hlt, (incPtr_eq hw hb).trans ?_⟩
    simp only [h.write_eq, hi, Nat.mod_add_mod, Nat.add_assoc]
  · simp only [SPCB.port, hi, h.write_eq]
    rw [Ring.slots_put p.sndBuffer hlt c]

/-- A character that is taken from the send buffer is the first one there. -/
theorem SPCB.RingOk.sent (h : p.RingOk ini) (h0 : 0 < p.sndCount) :
    (SPCB.sent ini p).1.RingOk ini ∧ (p.port ini).contents =
      p.sndBuffer p.sndReadPtr :: ((SPCB.sent ini p).1.port ini).contents := by
  have hb := ini.snd_lt
  have hc := h.count_le
  obtain ⟨n, hn⟩ : ∃ n, p.sndCount = n + 1 := Nat.exists_eq_add_one.2 h0
  have hd : dec p.sndCount = n := by
    unfold dec
    omega
  have hr := incPtr_eq h.read_lt hb
  constructor
  · refine ⟨?_, ?_, ?_⟩
    · exact hr.trans_lt (Nat.mod_lt _ ini.snd_pos)
    · exact hd.trans_le (by omega)
    · simp only [SPCB.sent, hr, hd, h.write_eq, Nat.mod_add_mod]
      rw [hn, Nat.add_right_comm, Nat.add_assoc]
  · simp only [SPCB.port, SPCB.sent, hr, hd]
    rw [hn, Ring.slots_cons, Nat.mod_eq_of_lt h.read_lt]

theorem wriChr_emit (h : p.RingOk ini) (hlt : p.sndCount < ini.sndBufsz) (c : Char) :
    (p.wriChr D.line ini c).2.RingOk ini ∧
      Emit (p.port ini) [c] false false ((p.wriChr D.line ini c).2.port ini) := by
  have hput {d : δ} : SPCB.RingOk ini { p with
      siopcb := (d, p.siopcb.2)
      sndBuffer := Function.update p.sndBuffer p.sndWritePtr c
      sndWritePtr := incPtr p.sndWritePtr ini.sndBufsz
      sndCount := inc p.sndCount } ∧ Emit (p.port ini) [c] false false (SPCB.port ini { p with
      siopcb := (d, p.siopcb.2)
      sndBuffer := Function.update p.sndBuffer p.sndWritePtr c
      sndWritePtr := incPtr p.sndWritePtr ini.sndBufsz
      sndCount := inc p.sndCount }) := by
    obtain ⟨h1, h2⟩ := SPCB.RingOk.put (p := { p with siopcb := (d, p.siopcb.2) })
      ⟨h.read_lt, h.count_le, h.write_eq⟩ hlt c
    exact ⟨h1, h2 ▸ .quiet⟩
  unfold SPCB.wriChr
  simp only
  by_cases hd : p.sndCount = 0 ∧ p.sndStopped = false
  · rw [if_pos hd]
    rcases serialSndChr_line D p c with ⟨-, d, he⟩ | ⟨-, d, he⟩
    · rw [he]
      have hnil : (p.port ini).contents = [] := by
        unfold SPCB.port
        rw [hd.1]
        rfl
      refine ⟨⟨h.read_lt, h.count_le, h.write_eq⟩, ?_⟩
      exact .data (l := (p.port ini).contents) (by rw [hnil]; rfl)
    · rw [he]
      exact hput
  · rw [if_neg hd]
    exact hput

theorem reaChr_emit (h : p.RingOk ini) : (p.reaChr D.line ini).2.RingOk ini ∧
    Emit (p.port ini) [] false (p.restartsRcv ini && (D.sndChr p.siopcb.1 FC_START).1)
      ((p.reaChr D.line ini).2.port ini) := by
  unfold SPCB.reaChr
  simp only
  by_cases hc : p.rcvStopped = true ∧ dec p.rcvCount ≤ bufcntStart ini.rcvBufsz
  · have hp : p.restartsRcv ini = true := by
      simpa [SPCB.restartsRcv] using hc
    rw [if_pos hc, hp, Bool.true_and]
    have hst : (p.port ini).stopped = !false := hc.1
    rcases serialSndChr_line D { p with
      rcvReadPtr := incPtr p.rcvReadPtr ini.rcvBufsz, rcvCount := dec p.rcvCount } FC_START with
      ⟨hs, d, he⟩ | ⟨hs, d, he⟩
    · rw [he, hs]
      exact ⟨⟨h.read_lt, h.count_le, h.write_eq⟩, .direct_of hst⟩
    · rw [he, hs]
      exact ⟨⟨h.read_lt, h.count_le, h.write_eq⟩, .pend_of hst⟩
  · have hp : p.restartsRcv ini = false := by
      simpa [SPCB.restartsRcv] using hc
    rw [if_neg hc, hp, Bool.false_and]
    exact ⟨⟨h.read_lt, h.count_le, h.write_eq⟩, .rest rfl⟩

theorem irdySnd_emit (h : p.RingOk ini) (hs : ∀ c, (D.sndChr p.siopcb.1 c).1 = true) :
    (p.irdySnd D.line ini).1.RingOk ini ∧
      Emit (p.port ini) [] (p.rcvFcChr != NUL) false ((p.irdySnd D.line ini).1.port ini) := by
  have hline (c : Char) : (D.line.sndChr p.siopcb c).2 =
      ((D.sndChr p.siopcb.1 c).2, p.siopcb.2 ++ [c]) := by
    simp only [Sio.line, hs, ↓reduceIte]
  unfold SPCB.irdySnd
  by_cases hf : p.rcvFcChr = NUL
  · have hcb : (p.rcvFcChr != NUL) = false := bne_eq_false_iff_eq.2 hf
    rw [if_neg (not_not_intro hf), hcb]
    split
    · rename_i hc
      obtain ⟨h1, h2⟩ := SPCB.RingOk.sent (p := { p with
        siopcb := (D.line.sndChr p.siopcb (p.sndBuffer p.sndReadPtr)).2 })
        ⟨h.read_lt, h.count_le, h.write_eq⟩ hc.2
      exact ⟨h1, .sent_of h2 (congrArg Prod.snd (hline _)) rfl rfl⟩
    · exact ⟨⟨h.read_lt, h.count_le, h.write_eq⟩, .rest rfl⟩
  · rw [if_pos hf, bne_iff_ne.2 hf, hline]
    exact ⟨⟨h.read_lt, h.count_le, h.write_eq⟩, .callback hf⟩

theorem irdyRcv_emit (h : p.RingOk ini) (c : Char) : (p.irdyRcv D.line ini c).1.RingOk ini ∧
    Emit (p.port ini) [] false (p.stopsRcv ini c && (D.sndChr p.siopcb.1 FC_STOP).1)
      ((p.irdyRcv D.line ini c).1.port ini) := by
  have keep (hp : p.stopsRcv ini c = false) {q : SPCB (δ × List Char)} (hr : q.RingOk ini)
      (hq : q.port ini = p.port ini) : q.RingOk ini ∧ Emit (p.port ini) []
        false (p.stopsRcv ini c && (D.sndChr p.siopcb.1 FC_STOP).1) (q.port ini) := by
    rw [hp, Bool.false_and]
    exact ⟨hr, .rest hq⟩
  unfold SPCB.irdyRcv
  split
  · rename_i hc
    exact keep (by simp [SPCB.stopsRcv, hc.1, hc.2]) ⟨h.read_lt, h.count_le, h.write_eq⟩ rfl
  split
  · rename_i hc
    have hp : p.stopsRcv ini c = false := by
      rcases hc.2 with rfl | ha
      · simp [SPCB.stopsRcv, hc.1]
      · simp [SPCB.stopsRcv, hc.1, ha]
    simp only
    split
    · rename_i h0
      rcases serialSndChr_line D { p with sndStopped := false } (p.sndBuffer p.sndReadPtr) with
        ⟨-, d, he⟩ | ⟨-, d, he⟩
      · obtain ⟨h1, h2⟩ := SPCB.RingOk.sent (p := { p with
          sndStopped := false, siopcb := (d, p.siopcb.2 ++ [p.sndBuffer p.sndReadPtr]) })
          ⟨h.read_lt, h.count_le, h.write_eq⟩ h0
        rw [he, hp, Bool.false_and]
        exact ⟨h1, .sent_of h2 rfl rfl rfl⟩
      · rw [he]
        exact keep hp ⟨h.read_lt, h.count_le, h.write_eq⟩ rfl
    · exact keep hp ⟨h.read_lt, h.count_le, h.write_eq⟩ rfl
  rename_i hstop hres
  split
  · rename_i hc
    exact keep (by simp [SPCB.stopsRcv, hc.1, hc.2]) ⟨h.read_lt, h.count_le, h.write_eq⟩ rfl
  split
  · rename_i hc
    exact keep (by simp [SPCB.stopsRcv, hc]) ⟨h.read_lt, h.count_le, h.write_eq⟩ rfl
  · rename_i hstart hfull
    have hstop' : (p.ioc IOCTL_FCSND && c == FC_STOP) = false := by
      simpa using hstop
    have hres' : (p.sndStopped && (c == FC_START || p.ioc IOCTL_FCANY)) = false := by
      simpa using hres
    have hstart' : (p.ioc IOCTL_FCSND && c == FC_START) = false := by
      simpa using hstart
    simp only
    split
    · rename_i hc
      have hp : p.stopsRcv ini c = true := by
        rw [SPCB.stopsRcv, hstop', hres', hstart', bne_iff_ne.2 hfull,
          show p.ioc IOCTL_FCRCV = true from hc.1, hc.2.1, decide_eq_true hc.2.2]
        rfl
      have hst : (p.port ini).stopped = !true := hc.2.1
      rw [hp, Bool.true_and]
      rcases serialSndChr_line D { p with
        rcvBuffer := Function.update p.rcvBuffer p.rcvWritePtr c
        rcvWritePtr := incPtr p.rcvWritePtr ini.rcvBufsz
        rcvCount := inc p.rcvCount } FC_STOP with ⟨hs, d, he⟩ | ⟨hs, d, he⟩
      · rw [he, hs]
        exact ⟨⟨h.read_lt, h.count_le, h.write_eq⟩, .direct_of hst⟩
      · rw [he, hs]
        exact ⟨⟨h.read_lt, h.count_le, h.write_eq⟩, .pend_of hst⟩
    · rename_i hc
      have hp : (p.ioc IOCTL_FCRCV && !p.rcvStopped &&
          decide (bufcntStop ini.rcvBufsz ≤ inc p.rcvCount)) = false := by
        have hn : ¬(p.ioc IOCTL_FCRCV = true ∧ p.rcvStopped = false ∧
          bufcntStop ini.rcvBufsz ≤ inc p.rcvCount) := hc
        simpa [and_assoc] using hn
      exact keep (by rw [SPCB.stopsRcv, hp, Bool.and_false]) ⟨h.read_lt, h.count_le, h.write_eq⟩ rfl

end

section
variable {δ : Type} {D : Sio δ} {ini : SPINIB} {k k' : Sys (δ × List Char)}

/-- A device that is ready takes a character. -/
def Sio.Ready (D : Sio δ) : Prop := ∀ d c, D.irdy d = true → (D.sndChr d c).1 = true

theorem Register.ready : Register.sio.Ready := by
  intro d c h
  have hf : d.full = false := Bool.not_eq_true' _ ▸ (Bool.and_eq_true_iff.1 h).1
  simp only [Register.sio, hf, Bool.false_eq_true, ↓reduceIte]

/-- What a step leaves of the control block, apart from `errorflag`. -/
theorem SPCB.Same.emit {p q q' : SPCB (δ × List Char)} (hs : Same q q')
    (h : q.RingOk ini ∧ Emit (p.port ini) acc cb d (q.port ini)) :
    q'.RingOk ini ∧ Emit (p.port ini) acc cb d (q'.port ini) := by
  obtain ⟨b, rfl⟩ := hs
  exact ⟨⟨h.1.read_lt, h.1.count_le, h.1.write_eq⟩, h.2⟩

theorem exec_emit (h : k.spcb.RingOk ini) (hs : k.Sound ini)
    (ht : k.task t = .run (.call op f)) : (k.exec D.line ini t op f).spcb.RingOk ini ∧
      Emit (k.spcb.port ini) (k.accepts (.run t)) false ((Event.run t).direct D ini k)
        ((k.exec D.line ini t op f).spcb.port ini) := by
  simp only [Sys.accepts, Event.direct, ht]
  cases op with
  | openflag => exact ⟨h, .rest rfl⟩
  | errorflag => exact ⟨h, .rest rfl⟩
  | ioctl => exact ⟨h, .rest rfl⟩
  | setErrorflag => exact ⟨⟨h.read_lt, h.count_le, h.write_eq⟩, .rest rfl⟩
  | waiSem s =>
    simp only [Sys.exec]
    split
    · exact ⟨h, .rest rfl⟩
    · exact ⟨h, .rest rfl⟩
  | sigSem s => exact SPCB.Same.emit ⟨_, signal_spcb (k.hold s t false) s⟩ ⟨h, .rest rfl⟩
  | wriChr c => exact wriChr_emit h (hs.room ht) c
  | reaChr => exact reaChr_emit h

/-- What a step does to a port as seen from the line. -/
theorem step_emit (hD : D.Ready) (h : k.spcb.RingOk ini) (hs : k.Sound ini)
    (he : k.step D.line ini e = some k') : k'.spcb.RingOk ini ∧
      Emit (k.spcb.port ini) (k.accepts e) (e.sendsFc k.spcb) (e.direct D ini k)
        (k'.spcb.port ini) := by
  cases e with
  | serialReaDat t len =>
    simp only [Sys.step] at he
    split at he
    · cases he
      exact ⟨h, .rest rfl⟩
    · cases he
  | serialWriDat t buf =>
    simp only [Sys.step] at he
    split at he
    · cases he
      exact ⟨h, .rest rfl⟩
    · cases he
  | serialCtlPor ioctl =>
    cases he
    split
    · exact ⟨h, .rest rfl⟩
    · exact ⟨⟨h.read_lt, h.count_le, h.write_eq⟩, .rest rfl⟩
  | run t =>
    simp only [Sys.step] at he
    split at he
    · rename_i ht
      cases he
      exact exec_emit h hs ht
    · cases he
  | relWai t =>
    simp only [Sys.step] at he
    split at he
    · cases he
      exact ⟨h, .rest rfl⟩
    · cases he
  | reorder s q =>
    simp only [Sys.step] at he
    split at he
    · cases he
      exact ⟨h, .rest rfl⟩
    · cases he
  | irdyRcv c =>
    cases he
    exact (callback_same k _).emit (irdyRcv_emit h c)
  | irdySnd =>
    simp only [Sys.step] at he
    split at he
    · rename_i hr
      cases he
      exact (callback_same k _).emit (irdySnd_emit h fun c => hD _ c hr)
    · cases he
  | tick =>
    cases he
    exact ⟨⟨h.read_lt, h.count_le, h.write_eq⟩, .rest rfl⟩

/-- What has gone through a port agrees with what is in it. -/
structure Sys.Flows (ini : SPINIB) (l : List Obs) (k : Sys (δ × List Char)) : Prop where
  sound : k.Sound ini
  ring : k.spcb.RingOk ini
  order : Obs.accepted l = Obs.sent l ++ (k.spcb.port ini).contents
  line : Obs.line l = k.spcb.siopcb.2

theorem Sys.Flows.step (hD : D.Ready) (h : k.Flows ini l) (he : k.step D.line ini e = some k') :
    k'.Flows ini (l ++ k.obs e k') := by
  obtain ⟨hr, hm⟩ := step_emit hD h.ring h.sound he
  refine ⟨h.sound.step he, hr, ?_, ?_⟩
  · calc Obs.accepted (l ++ k.obs e k')
      _ = Obs.sent l ++ ((k.spcb.port ini).contents ++ Obs.accepted (k.obs e k')) := by
        rw [Obs.accepted_append, h.order, List.append_assoc]
      _ = Obs.sent l ++ (Obs.sent (k.obs e k') ++ (k'.spcb.port ini).contents) :=
        congrArg _ hm.order
      _ = Obs.sent (l ++ k.obs e k') ++ (k'.spcb.port ini).contents := by
        rw [Obs.sent_append, List.append_assoc]
  · rw [Obs.line_append, h.line]
    exact hm.line_eq.symm

theorem opened_flows (ini : SPINIB) (p : SPCB (δ × List Char)) (d : δ) :
    (Sys.opened p (d, [])).Flows ini [] :=
  ⟨.inl (opened_ok p _), ⟨ini.snd_pos, Nat.zero_le _, (Nat.zero_mod _).symm⟩, rfl, rfl⟩

end

section
variable {ini : SPINIB} {k k' : Sys (Register × List Char)}

/-- START or STOP is handed over at once while the other one is still to be sent. -/
def Event.overtakes (ini : SPINIB) (k : Sys (Register × List Char)) (e : Event) : Bool :=
  e.direct Register.sio ini k && k.spcb.rcvFcChr != NUL

/-- The START or STOP that was handed over last, or is to be sent, is the one that `rcv_stopped`
stands for, in every run in which neither of them overtakes the other; and a step in which one
does breaks this. -/
theorem reachable_flow (ini : SPINIB) (p : SPCB (Register × List Char)) (d : Register)
    (h : Trans.Run (fun k e k' => k.step Register.sio.line ini e = some k' ∧
      e.overtakes ini k = false) (Sys.opened p (d, [])) es k) :
    let l := Obs.flow (observed Register.sio ini (Sys.opened p (d, [])) es)
    (k.spcb.rcvFcChr = NUL → ∀ c ∈ l.getLast?,
      c = if k.spcb.rcvStopped then FC_STOP else FC_START) ∧
    (k.spcb.rcvFcChr = NUL → l = [] → k.spcb.rcvStopped = false) ∧
    (k.spcb.rcvFcChr ≠ NUL →
      k.spcb.rcvFcChr = if k.spcb.rcvStopped then FC_STOP else FC_START) ∧
    ∀ e k', k.step Register.sio.line ini e = some k' →
      (Emit.Agrees (l ++ Obs.flow (k.obs e k')) (k'.spcb.port ini) ↔ e.overtakes ini k = false) := by
  intro l
  obtain ⟨hf, ha⟩ : k.Flows ini (observed Register.sio ini (Sys.opened p (d, [])) es) ∧
      Emit.Agrees l (k.spcb.port ini) :=
    h.observe_invariant (R := fun l k => k.Flows ini l ∧ Emit.Agrees (Obs.flow l) (k.spcb.port ini))
      (fun _ _ _ he => he.1)
      ⟨opened_flows ini p d, fun _ => nofun, fun _ _ => rfl, fun hn => absurd rfl hn⟩
      fun l k e k' hl he => by
        refine ⟨hl.1.step Register.ready he.1, ?_⟩
        rw [Obs.flow_append]
        exact ((step_emit Register.ready hl.1.ring hl.1.sound he.1).2.agrees hl.2).2 he.2
  exact ⟨ha.idle, ha.none, ha.pending, fun e k' he =>
    (step_emit Register.ready hf.ring hf.sound he).2.agrees ha⟩

/-- A buffer for four characters: STOP is sent for the third one, and START when two are left. -/
def SPINIB.small : SPINIB := ⟨4, 4, by decide, by decide, by decide, by decide⟩

theorem reachable_flow_stopped : ∃ k, [Event.irdyRcv 0x61, .irdyRcv 0x62, .irdyRcv 0x63].foldlM
    (Sys.step Register.sio.line .small) .idle = some k ∧ ∀ c ∈ (Obs.flow (observed Register.sio
      .small .idle [.irdyRcv 0x61, .irdyRcv 0x62, .irdyRcv 0x63])).getLast?, c = FC_STOP := by
  have h1 : Trans.Run (fun (k : Sys (Register × List Char)) (e : Event) k' =>
      k.step Register.sio.line .small e = some k' ∧ e.overtakes .small k = false) .idle
      [.irdyRcv 0x61] _ := .one ⟨rfl, rfl⟩
  have hr := (h1.snoc (e := .irdyRcv 0x62) ⟨rfl, rfl⟩).snoc (e := .irdyRcv 0x63) ⟨rfl, rfl⟩
  exact ⟨_, rfl, (reachable_flow .small _ _ hr).1 rfl⟩

/-- The device is busy when STOP is to be sent, so that STOP waits; the device becomes free, a task
reads and sends START at once; then the callback sends STOP. -/
def overtaking : List Event :=
  [.serialWriDat 1 [0x61], .run 1, .run 1, .run 1, .run 1, .irdyRcv 0x61, .irdyRcv 0x62,
    .irdyRcv 0x63, .tick, .serialReaDat 2 1, .run 2, .run 2, .run 2, .run 2, .tick, .irdySnd]

theorem flow_overtaken : ∃ k,
    overtaking.foldlM (Sys.step Register.sio.line .small) .idle = some k ∧
    k.spcb.rcvFcChr = NUL ∧ k.spcb.rcvStopped = false ∧
    (Obs.flow (observed Register.sio .small .idle overtaking)).getLast? = some FC_STOP := by
  have h : (overtaking.foldlM (Sys.step Register.sio.line .small) .idle).any (fun k =>
      k.spcb.rcvFcChr == NUL && !k.spcb.rcvStopped) = true := by
    decide +kernel
  obtain ⟨k, hk, h⟩ := (Option.any_eq_true _ _).1 h
  obtain ⟨hf, hs⟩ := Bool.and_eq_true_iff.1 h
  exact ⟨k, hk, beq_iff_eq.1 hf, (Bool.not_eq_true' _).mp hs, by decide +kernel⟩

end

end AspKernel.Serial
