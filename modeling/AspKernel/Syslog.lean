import AspKernel.LogBuffer
import AspKernel.Lib.Run
import AspKernel.Lib.Window

/-! The system log. -/

namespace AspKernel.Syslog
set_option autoImplicit true

/-- `LOG_MASK`. -/
def logMask (prio : Nat) : BitVec 32 := 1#32 <<< prio

structure State where
  log : LogBuf
  lost : BitVec 32
  logmask : BitVec 32
  lowmaskNot : BitVec 32

namespace State

def syslogInitialize (s : State) : State := ⟨s.log.clear, 0, 0, 0⟩

/-- The second component is the record that goes to the low-level output. -/
def syslogWriLog (tcnt : Nat) (s : State) (prio : Nat) (p : SYSLOG) (currentTime : BitVec 32) :
    State × Option SYSLOG :=
  let p := { p with logtim := currentTime }
  (if s.logmask &&& logMask prio ≠ 0 then
      { s with log := s.log.put tcnt p, lost := if s.log.count < tcnt then s.lost else s.lost + 1 }
    else s,
    if ~~~s.lowmaskNot &&& logMask prio ≠ 0 then some p else none)

/-- The code that is returned is the number of lost records. -/
def syslogReaLog (tcnt : Nat) (s : State) : (ER × Option SYSLOG) × State :=
  match s.log.get tcnt with
  | some (p, log) => ((s.lost.toInt, some p), { s with log, lost := 0 })
  | none => ((E_OBJ, none), s)

def syslogMskLog (s : State) (logmask lowmask : BitVec 32) : State :=
  { s with logmask, lowmaskNot := ~~~lowmask }

end State

inductive Event
  | wriLog (prio : Nat) (p : SYSLOG) (currentTime : BitVec 32)
  | reaLog
  | mskLog (logmask lowmask : BitVec 32)

def State.step (tcnt : Nat) (s : State) : Event → Option State
  | .wriLog prio p currentTime => some (s.syslogWriLog tcnt prio p currentTime).1
  | .reaLog => some (s.syslogReaLog tcnt).2
  | .mskLog logmask lowmask => some (s.syslogMskLog logmask lowmask)

/-- What happens to a record: it is recorded, it is lost, or it is read, where a code is
returned. -/
inductive Obs
  | put (p : SYSLOG)
  | lose
  | get (p : SYSLOG) (ercd : ER)

def State.obs (tcnt : Nat) (s : State) : Event → State → List Obs
  | .wriLog prio p currentTime, _ =>
    if s.logmask &&& logMask prio ≠ 0 then
      if s.log.count < tcnt then [.put { p with logtim := currentTime }]
      else [.lose, .put { p with logtim := currentTime }]
    else []
  | .reaLog, _ =>
    match (s.syslogReaLog tcnt).1 with
    | (ercd, some p) => [.get p ercd]
    | _ => []
  | .mskLog .., _ => []

/-- What has happened in a sequence of calls. -/
abbrev observed (tcnt : Nat) (s : State) (es : List Event) : List Obs :=
  Trans.observe (State.step tcnt) (State.obs tcnt) s es

namespace Obs

def recorded (l : List Obs) : List SYSLOG := l.filterMap fun | put p => some p | _ => none
def returned (l : List Obs) : List SYSLOG := l.filterMap fun | get p _ => some p | _ => none
def reported (l : List Obs) : List ER := l.filterMap fun | get _ ercd => some ercd | _ => none

/-- The number of records that have been lost since the last one was read. -/
def sinceRead (l : List Obs) : Nat :=
  l.foldl (fun n o => match o with | put _ => n | lose => n + 1 | get .. => 0) 0

@[simp] theorem recorded_append (l l' : List Obs) :
    recorded (l ++ l') = recorded l ++ recorded l' := List.filterMap_append

@[simp] theorem returned_append (l l' : List Obs) :
    returned (l ++ l') = returned l ++ returned l' := List.filterMap_append

@[simp] theorem reported_append (l l' : List Obs) :
    reported (l ++ l') = reported l ++ reported l' := List.filterMap_append

theorem sinceRead_put (l : List Obs) (p : SYSLOG) : sinceRead (l ++ [put p]) = sinceRead l := by
  rw [sinceRead, List.foldl_append]
  rfl

theorem sinceRead_lose (l : List Obs) (p : SYSLOG) :
    sinceRead (l ++ [lose, put p]) = sinceRead l + 1 := by
  rw [sinceRead, List.foldl_append]
  rfl

theorem sinceRead_get (l : List Obs) (p : SYSLOG) (ercd : ER) :
    sinceRead (l ++ [get p ercd]) = 0 := by
  rw [sinceRead, List.foldl_append]
  rfl

end Obs

open Obs

/-- The state of the log after the calls in which `l` has happened. -/
structure Inv (tcnt : Nat) (l : List Obs) (s : State) : Prop where
  ok : s.log.Ok tcnt
  lost : s.lost = BitVec.ofNat 32 (sinceRead l)
  passed : ∃ n : Nat, Window.Passed (recorded l) (returned l) (s.log.contents tcnt) n ∧
    (n : Int) = sinceRead l + (reported l).sum

variable {s k : State}

theorem Inv.wriLog (h : Inv tcnt l s) (prio : Nat) (p : SYSLOG) (currentTime : BitVec 32) :
    Inv tcnt (l ++ s.obs tcnt (.wriLog prio p currentTime) k)
      (s.syslogWriLog tcnt prio p currentTime).1 := by
  obtain ⟨n, hp, hn⟩ := h.passed
  simp only [State.obs, State.syslogWriLog]
  split
  · split
    · rename_i hlt
      refine ⟨h.ok.put_ok _, ?_, n, ?_, ?_⟩
      · rw [sinceRead_put]
        exact h.lost
      · have hput := hp.put { p with logtim := currentTime }
        rw [← h.ok.put_room hlt] at hput
        simpa [recorded, returned] using hput
      · rw [sinceRead_put, hn]
        simp [reported]
    · rename_i hge
      obtain ⟨a, held, ha, hput⟩ := h.ok.put_full hge { p with logtim := currentTime }
      refine ⟨h.ok.put_ok _, ?_, n + 1, ?_, ?_⟩
      · rw [sinceRead_lose, h.lost]
        exact (BitVec.ofNat_add ..).symm
      · rw [ha] at hp
        have hlose := hp.lose.put { p with logtim := currentTime }
        rw [← hput] at hlose
        simpa [recorded, returned] using hlose
      · rw [sinceRead_lose, Nat.cast_add, hn]
        simp only [reported_append]
        simp [reported]
        omega
  · rw [List.append_nil]
    exact h

theorem Inv.reaLog (h : Inv tcnt l s) (hl : sinceRead l < 2 ^ 31) :
    Inv tcnt (l ++ s.obs tcnt .reaLog k) (s.syslogReaLog tcnt).2 := by
  obtain ⟨n, hp, hn⟩ := h.passed
  simp only [State.obs, State.syslogReaLog]
  cases hg : s.log.get tcnt with
  | none =>
    rw [List.append_nil]
    exact h
  | some r =>
    obtain ⟨p, log⟩ := r
    obtain ⟨hok, hc⟩ := h.ok.get hg
    have hint : s.lost.toInt = sinceRead l := by
      rw [h.lost, BitVec.toInt_ofNat', Int.bmod_eq_of_le] <;> omega
    refine ⟨hok, (congrArg (BitVec.ofNat 32) (sinceRead_get l p _)).symm, n, ?_, ?_⟩
    · rw [hc] at hp
      simpa [recorded, returned] using hp.get
    · rw [sinceRead_get, hn, reported_append, List.sum_append]
      simp [reported, hint]
      omega

theorem Inv.step (h : Inv tcnt l s) (hl : sinceRead l < 2 ^ 31) (e : Event)
    (he : s.step tcnt e = some k) : Inv tcnt (l ++ s.obs tcnt e k) k := by
  cases e with
  | wriLog prio p currentTime =>
    cases he
    exact h.wriLog prio p currentTime
  | reaLog =>
    cases he
    exact h.reaLog hl
  | mskLog logmask lowmask =>
    cases he
    exact ⟨h.ok, (List.append_nil l).symm ▸ h.lost, (List.append_nil l).symm ▸ h.passed⟩

theorem Inv.run (ht : 0 < tcnt)
    (h : Trans.Run (fun s e t => s.step tcnt e = some t) s.syslogInitialize es k)
    (hl : ∀ es', es' <+: es → sinceRead (observed tcnt s.syslogInitialize es') < 2 ^ 31) :
    Inv tcnt (observed tcnt s.syslogInitialize es) k := by
  induction h with
  | nil => exact ⟨s.log.clear_ok ht, rfl, 0, .nil, rfl⟩
  | snoc hr he ih =>
    have hi := ih fun es' hes => hl es' (hes.trans (List.prefix_append ..))
    have hs := hi.step (hl _ (List.prefix_append ..)) _ he
    unfold observed at *
    rw [Trans.observe_append hr.foldlM]
    simpa only [Trans.observe, he, List.append_nil] using hs

/-- The records that have been read are a subsequence of those recorded before the ones in the
buffer, which are the newest; and each record has been read, is in the buffer, or has been counted
as lost. -/
theorem reachable_syslog (ht : 0 < tcnt)
    (h : Trans.Run (fun s e t => s.step tcnt e = some t) s.syslogInitialize es k)
    (hl : ∀ es', es' <+: es → sinceRead (observed tcnt s.syslogInitialize es') < 2 ^ 31) :
    let l := observed tcnt s.syslogInitialize es
    (∃ gone, recorded l = gone ++ k.log.contents tcnt ∧ (returned l).Sublist gone) ∧
    (k.log.contents tcnt).length = k.log.count ∧
    ((recorded l).length : Int) =
      (returned l).length + k.log.count + k.lost.toNat + (reported l).sum ∧
    k.log.head < tcnt ∧ k.log.tail < tcnt ∧
    k.log.tail = (k.log.head + k.log.count) % tcnt := by
  intro l
  have hi := Inv.run ht h hl
  obtain ⟨n, hp, hn⟩ := hi.passed
  have hlen := hp.length
  rw [LogBuf.contents_length] at hlen
  have hlost : k.lost.toNat = sinceRead l := by
    rw [hi.lost, BitVec.toNat_ofNat]
    exact Nat.mod_eq_of_lt ((hl es (List.prefix_refl es)).trans (by decide))
  obtain ⟨gone, hc, hs, -⟩ := hp
  refine ⟨⟨gone, hc, hs⟩, LogBuf.contents_length .., ?_, hi.ok.head_lt, hi.ok.tail_lt,
    hi.ok.tail_eq⟩
  rw [hlen, hlost]
  push_cast
  rw [hn]
  exact (Int.add_assoc ..).symm

/-- A state before the initialisation, and a record. -/
def State.zero : State := ⟨⟨fun _ => ⟨0, 0, .replicate 6 0⟩, 0, 0, 0⟩, 0, 0, 0⟩

def sample (logtype : BitVec 32) : SYSLOG := ⟨logtype, 0, .replicate 6 0⟩

theorem reachable_syslog_lost : ∃ k, [Event.mskLog 1 0, .wriLog 0 (sample 1) 5,
    .wriLog 0 (sample 2) 6, .reaLog, .wriLog 0 (sample 3) 7].foldlM (State.step 1)
      State.zero.syslogInitialize = some k ∧
    (k.log.contents 1).length = k.log.count ∧ k.log.count = 1 := by
  refine ⟨_, rfl, ?_⟩
  have hr : Trans.Run (fun s e t => State.step 1 s e = some t) State.zero.syslogInitialize
      [.mskLog 1 0, .wriLog 0 (sample 1) 5, .wriLog 0 (sample 2) 6, .reaLog,
        .wriLog 0 (sample 3) 7] _ := Trans.Run.of_foldlM rfl
  refine ⟨(reachable_syslog Nat.one_pos hr fun es' he => ?_).2.1, rfl⟩
  revert es'
  simp only [← List.mem_inits]
  decide

end AspKernel.Syslog
