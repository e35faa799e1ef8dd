import AspKernel.LogBuffer
import AspKernel.Lib.Run
import AspKernel.Lib.Window

/-! The trace log. -/

namespace AspKernel.TraceLog
set_option autoImplicit true

def TRACE_STOP : MODE := 0x00
def TRACE_RINGBUF : MODE := 0x01
def TRACE_AUTOSTOP : MODE := 0x02
def TRACE_CLEAR : MODE := 0x04

abbrev TRACE := SYSLOG

structure State where
  log : LogBuf
  mode : MODE

namespace State

def traceInitialize (s : State) (exinf : MODE) : State := ⟨s.log.clear, exinf⟩

def traceStaLog (s : State) (mode : MODE) : State :=
  ⟨if mode &&& TRACE_CLEAR ≠ 0 then s.log.clear else s.log, mode⟩

def traceWriLog (tcnt : Nat) (s : State) (p : TRACE) (tim : BitVec 32) : State :=
  if s.mode ≠ TRACE_STOP then
    let log := s.log.put tcnt { p with logtim := tim }
    ⟨log, if s.log.count < tcnt ∧ tcnt ≤ log.count ∧ s.mode &&& TRACE_AUTOSTOP ≠ 0 then TRACE_STOP
      else s.mode⟩
  else s

def traceReaLog (tcnt : Nat) (s : State) : (ER × Option TRACE) × State :=
  match s.log.get tcnt with
  | some (p, log) => ((E_OK, some p), { s with log })
  | none => ((E_OBJ, none), s)

end State

inductive Event
  | staLog (mode : MODE)
  | wriLog (p : TRACE) (tim : BitVec 32)
  | reaLog

def State.step (tcnt : Nat) (s : State) : Event → Option State
  | .staLog mode => some (s.traceStaLog mode)
  | .wriLog p tim => some (s.traceWriLog tcnt p tim)
  | .reaLog => some (s.traceReaLog tcnt).2

/-- What happens to a record. -/
inductive Obs
  | put (p : TRACE)
  | get (p : TRACE)

def State.obs (tcnt : Nat) (s : State) : Event → State → List Obs
  | .wriLog p tim, _ => if s.mode ≠ TRACE_STOP then [.put { p with logtim := tim }] else []
  | .reaLog, _ => ((s.traceReaLog tcnt).1.2.map Obs.get).toList
  | .staLog _, _ => []

/-- What has happened in a sequence of calls. -/
abbrev observed (tcnt : Nat) (s : State) (es : List Event) : List Obs :=
  Trans.observe (State.step tcnt) (State.obs tcnt) s es

namespace Obs

def written (l : List Obs) : List TRACE := l.filterMap fun | put p => some p | get _ => none
def reads (l : List Obs) : List TRACE := l.filterMap fun | get p => some p | put _ => none

@[simp] theorem written_put (l : List Obs) (p : TRACE) :
    written (l ++ [put p]) = written l ++ [p] := List.filterMap_append

@[simp] theorem reads_put (l : List Obs) (p : TRACE) : reads (l ++ [put p]) = reads l :=
  List.filterMap_append.trans (List.append_nil _)

@[simp] theorem written_get (l : List Obs) (p : TRACE) : written (l ++ [get p]) = written l :=
  List.filterMap_append.trans (List.append_nil _)

@[simp] theorem reads_get (l : List Obs) (p : TRACE) : reads (l ++ [get p]) = reads l ++ [p] :=
  List.filterMap_append

end Obs

open Obs

/-- The state of the log after the calls in which `l` has happened. -/
structure Inv (tcnt : Nat) (l : List Obs) (s : State) : Prop where
  ok : s.log.Ok tcnt
  passed : ∃ n, Window.Passed (written l) (reads l) (s.log.contents tcnt) n

variable {s k k' : State}

theorem Inv.staLog (h : Inv tcnt l s) (mode : MODE) : Inv tcnt l (s.traceStaLog mode) := by
  obtain ⟨n, hp⟩ := h.passed
  unfold State.traceStaLog
  split
  · exact ⟨s.log.clear_ok (Nat.zero_lt_of_lt h.ok.head_lt), _, hp.clear⟩
  · exact ⟨h.ok, n, hp⟩

theorem Inv.wriLog (h : Inv tcnt l s) (p : TRACE) (tim : BitVec 32) :
    Inv tcnt (l ++ s.obs tcnt (.wriLog p tim) k) (s.traceWriLog tcnt p tim) := by
  obtain ⟨n, hp⟩ := h.passed
  simp only [State.obs, State.traceWriLog]
  split
  · refine ⟨h.ok.put_ok _, ?_⟩
    by_cases hlt : s.log.count < tcnt
    · have hput := hp.put { p with logtim := tim }
      rw [← h.ok.put_room hlt] at hput
      exact ⟨n, by rwa [written_put, reads_put]⟩
    · obtain ⟨a, held, ha, hput⟩ := h.ok.put_full hlt { p with logtim := tim }
      rw [ha] at hp
      have hlose := hp.lose.put { p with logtim := tim }
      rw [← hput] at hlose
      exact ⟨n + 1, by rwa [written_put, reads_put]⟩
  · rw [List.append_nil]
    exact h

theorem Inv.reaLog (h : Inv tcnt l s) :
    Inv tcnt (l ++ s.obs tcnt .reaLog k) (s.traceReaLog tcnt).2 := by
  obtain ⟨n, hp⟩ := h.passed
  simp only [State.obs, State.traceReaLog]
  cases hg : s.log.get tcnt with
  | none =>
    simp only [Option.map_none, Option.toList_none, List.append_nil]
    exact h
  | some r =>
    obtain ⟨p, log⟩ := r
    obtain ⟨hok, hc⟩ := h.ok.get hg
    rw [hc] at hp
    refine ⟨hok, n, ?_⟩
    rw [Option.map_some, Option.toList_some, written_get, reads_get]
    exact hp.get

theorem Inv.step (h : Inv tcnt l s) (e : Event) (he : s.step tcnt e = some k) :
    Inv tcnt (l ++ s.obs tcnt e k) k := by
  cases e with
  | staLog mode =>
    cases he
    exact (List.append_nil l).symm ▸ h.staLog mode
  | wriLog p tim =>
    cases he
    exact h.wriLog p tim
  | reaLog =>
    cases he
    exact h.reaLog

theorem Inv.run (ht : 0 < tcnt) (s : State) (exinf : MODE)
    (h : Trans.Run (fun s e t => s.step tcnt e = some t) (s.traceInitialize exinf) es k) :
    Inv tcnt (observed tcnt (s.traceInitialize exinf) es) k := by
  induction h with
  | nil => exact ⟨s.log.clear_ok ht, 0, .nil⟩
  | snoc hr he ih =>
    have hs := ih.step _ he
    unfold observed at *
    rw [Trans.observe_append hr.foldlM]
    simpa only [Trans.observe, he, List.append_nil] using hs

/-- The log stops by itself before it is full. -/
def State.Stops (tcnt : Nat) (s : State) : Prop := s.mode &&& TRACE_AUTOSTOP ≠ 0 → s.log.count < tcnt

/-- The automatic stop is set, without a clear, while the buffer is full. -/
def Event.overfull (tcnt : Nat) (s : State) : Event → Bool
  | .staLog mode =>
    mode &&& TRACE_AUTOSTOP != 0 && mode &&& TRACE_CLEAR == 0 && decide (tcnt ≤ s.log.count)
  | _ => false

/-- In the automatic stop no record is overwritten, and the log stops when it becomes full. -/
theorem stops_wriLog (h : s.log.Ok tcnt) (hs : s.Stops tcnt)
    (hm : s.mode &&& TRACE_AUTOSTOP ≠ 0) (p : TRACE) (tim : BitVec 32) :
    (s.traceWriLog tcnt p tim).log.contents tcnt =
      s.log.contents tcnt ++ [{ p with logtim := tim }] ∧
    ((s.traceWriLog tcnt p tim).log.count = tcnt → (s.traceWriLog tcnt p tim).mode = TRACE_STOP) ∧
    (s.traceWriLog tcnt p tim).Stops tcnt := by
  have hlt := hs hm
  have hne : s.mode ≠ TRACE_STOP := by
    intro he
    rw [he] at hm
    exact hm rfl
  have hcount := (LogBuf.put_count tcnt s.log { p with logtim := tim }).trans (if_pos hlt)
  unfold State.traceWriLog State.Stops
  rw [if_pos hne]
  refine ⟨h.put_room hlt _, fun hc => if_pos ⟨hlt, hc.ge, hm⟩, fun ha => ?_⟩
  by_contra hge
  refine ha (congrArg (· &&& TRACE_AUTOSTOP) (if_pos ⟨hlt, Nat.not_lt.1 hge, hm⟩))

theorem stops_step (h : s.log.Ok tcnt) (hs : s.Stops tcnt) (e : Event)
    (he : s.step tcnt e = some k) : k.Stops tcnt ↔ e.overfull tcnt s = false := by
  have ht := Nat.zero_lt_of_lt h.head_lt
  cases e with
  | staLog mode =>
    cases he
    unfold State.Stops State.traceStaLog Event.overfull
    by_cases hc : mode &&& TRACE_CLEAR = 0
    · simp only [hc, ne_eq, not_true_eq_false, ↓reduceIte, beq_self_eq_true, Bool.and_true,
        Bool.and_eq_false_iff, bne_eq_false_iff_eq, decide_eq_false_iff_not, Nat.not_le]
      tauto
    · rw [if_pos hc]
      simp only [beq_eq_false_iff_ne.2 hc, Bool.and_false, Bool.false_and]
      exact iff_of_true (fun _ => ht) trivial
  | wriLog p tim =>
    cases he
    refine iff_of_true ?_ rfl
    by_cases hm : s.mode &&& TRACE_AUTOSTOP = 0
    · intro ha
      unfold State.traceWriLog at ha
      split at ha
      · simp only [hm, ne_eq, not_true_eq_false, and_false, ↓reduceIte] at ha
      · exact absurd hm ha
    · exact (stops_wriLog h hs hm p tim).2.2
  | reaLog =>
    cases he
    refine iff_of_true ?_ rfl
    unfold State.traceReaLog
    cases hg : s.log.get tcnt with
    | none => exact hs
    | some r =>
      obtain ⟨p, log⟩ := r
      intro ha
      have hlen := congrArg List.length (h.get hg).2
      rw [List.length_cons, LogBuf.contents_length, LogBuf.contents_length] at hlen
      have hlt : s.log.count < tcnt := hs ha
      change log.count < tcnt
      omega

/-- The records that have been read are a subsequence of those written before the ones in the
buffer. In a run that never sets the automatic stop on a full buffer, no record is overwritten in
it, and the log stops as soon as it is full; and a step that does so leaves it full and running. -/
theorem reachable_trace (ht : 0 < tcnt) (s : State) (exinf : MODE) :
    (∀ es k, Trans.Run (fun s e t => s.step tcnt e = some t) (s.traceInitialize exinf) es k →
      (∃ gone, written (observed tcnt (s.traceInitialize exinf) es) =
          gone ++ k.log.contents tcnt ∧
        (reads (observed tcnt (s.traceInitialize exinf) es)).Sublist gone) ∧
      k.log.head < tcnt ∧ k.log.count ≤ tcnt ∧
      k.log.tail = (k.log.head + k.log.count) % tcnt) ∧
    ∀ es k, Trans.Run (fun s e t => s.step tcnt e = some t ∧ e.overfull tcnt s = false)
        (s.traceInitialize exinf) es k →
      k.Stops tcnt ∧
      (∀ p tim, k.mode &&& TRACE_AUTOSTOP ≠ 0 →
        (k.traceWriLog tcnt p tim).log.contents tcnt =
          k.log.contents tcnt ++ [{ p with logtim := tim }] ∧
        ((k.traceWriLog tcnt p tim).log.count = tcnt →
          (k.traceWriLog tcnt p tim).mode = TRACE_STOP)) ∧
      ∀ e k', k.step tcnt e = some k' → (k'.Stops tcnt ↔ e.overfull tcnt k = false) := by
  constructor
  · intro es k hr
    have hi := Inv.run ht s exinf hr
    obtain ⟨n, gone, hc, hs, -⟩ := hi.passed
    exact ⟨⟨gone, hc, hs⟩, hi.ok.head_lt, hi.ok.count_le, hi.ok.tail_eq⟩
  · intro es k hr
    have hk : (∃ l, Inv tcnt l k) ∧ k.Stops tcnt := by
      refine hr.invariant (I := fun k => (∃ l, Inv tcnt l k) ∧ k.Stops tcnt)
        (fun t e u hi he => ?_) ⟨⟨[], s.log.clear_ok ht, 0, .nil⟩, fun _ => ht⟩
      obtain ⟨⟨l, hl⟩, hs⟩ := hi
      exact ⟨⟨_, hl.step e he.1⟩, (stops_step hl.ok hs e he.1).2 he.2⟩
    obtain ⟨⟨l, hl⟩, hs⟩ := hk
    refine ⟨hs, fun p tim hm => ?_, fun e k' he => stops_step hl.ok hs e he⟩
    obtain ⟨h1, h2, -⟩ := stops_wriLog hl.ok hs hm p tim
    exact ⟨h1, h2⟩


/-- A state before the initialisation, and a record. -/
def State.zero : State := ⟨⟨fun _ => ⟨0, 0, .replicate 6 0⟩, 0, 0, 0⟩, 0⟩

def sample (logtype : BitVec 32) : TRACE := ⟨logtype, 0, .replicate 6 0⟩

theorem reachable_trace_one : ∃ k, [Event.wriLog (sample 1) 5].foldlM (State.step 1)
      (State.zero.traceInitialize TRACE_AUTOSTOP) = some k ∧
    k.log.count ≤ 1 ∧ k.Stops 1 ∧ k.mode = TRACE_STOP := by
  refine ⟨_, rfl, ?_, ?_, rfl⟩
  · exact ((reachable_trace Nat.one_pos .zero TRACE_AUTOSTOP).1 [.wriLog (sample 1) 5] _
      (.one rfl)).2.2.1
  · exact ((reachable_trace Nat.one_pos .zero TRACE_AUTOSTOP).2 [.wriLog (sample 1) 5] _
      (.one ⟨rfl, rfl⟩)).1

/-- The automatic stop is set on a full buffer: the unread record is overwritten, and the log does
not stop. -/
theorem trace_overwritten : ∃ k k', [Event.wriLog (sample 1) 5, .staLog TRACE_AUTOSTOP].foldlM
      (State.step 1) (State.zero.traceInitialize TRACE_RINGBUF) = some k ∧
    k.step 1 (.wriLog (sample 2) 6) = some k' ∧
    k.mode &&& TRACE_AUTOSTOP ≠ 0 ∧ (k.log.contents 1).map (·.logtype) = [1] ∧
    (k'.log.contents 1).map (·.logtype) = [2] ∧ k'.log.count = 1 ∧ k'.mode ≠ TRACE_STOP :=
  ⟨_, _, rfl, rfl, by decide, rfl, rfl, rfl, by decide⟩

end AspKernel.TraceLog
