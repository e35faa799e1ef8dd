import AspKernel.Clock
import Mathlib.Tactic.Linarith
import Mathlib.Tactic.FieldSimp
import Mathlib.Algebra.Order.Field.Rat

namespace AspKernel
set_option autoImplicit true

/-- The hardware timer counts microseconds. -/
abbrev CLOCK := BitVec 32
abbrev SYSUTM := BitVec 32

/-- The computation in `get_utm` from what it has read. -/
def getUtm (cfg : Cfg) (time : EVTTIM) (subtime : BitVec 32) (clock1 : CLOCK) (ireq : Bool)
    (clock2 : CLOCK) : SYSUTM :=
  let utime := time * 1000 + subtime * 1000 / cfg.ticDeno
  let utime := if !ireq || clock1 > clock2 then utime - cfg.ticNume * 1000 / cfg.ticDeno else utime
  utime + clock1

namespace Utm

/-- The hardware timer at some moment: how often it has wrapped around, its counter, and whether it
requests an interrupt. -/
structure Instant where
  wraps : Nat
  clock : Nat
  ireq : Bool

/-- Where a call of `get_utm` is, with what it has read; `first` is the moment of its first look at the
timer. -/
inductive Call
  | idle
  | time (time : EVTTIM) (subtime : BitVec 32)
  | clock (time : EVTTIM) (subtime : BitVec 32) (clock1 : CLOCK) (first : Instant)
  | probe (time : EVTTIM) (subtime : BitVec 32) (clock1 : CLOCK) (ireq : Bool) (first : Instant)

/-- A completed call: its result, and the moments of its first and its last look at the timer. -/
structure Reading where
  value : SYSUTM
  first : Instant
  last : Instant

structure Sys where
  tm : Timer
  hw : Instant
  call : Call
  log : List Reading

inductive Event
  | count | wrap | signal | readTime | readClock1 | probe | readClock2

/-- The tick in microseconds, rounded down. -/
def period (cfg : Cfg) : Nat := 1000 * cfg.ticNume.toNat / cfg.ticDeno.toNat

def Sys.step (cfg : Cfg) (s : Sys) : Event → Option Sys
  | .count =>
    if s.hw.clock < period cfg then some { s with hw := { s.hw with clock := s.hw.clock + 1 } }
    else none
  -- the last request has been served
  | .wrap =>
    if s.hw.clock = period cfg ∧ s.hw.ireq = false then
      some { s with hw := ⟨s.hw.wraps + 1, 0, true⟩ }
    else none
  -- a call of `get_utm` locks the interrupts
  | .signal =>
    match s.call with
    | .idle =>
      if s.hw.ireq then
        some { s with
          tm := s.tm.sigBegin cfg.ticNume cfg.ticDeno
          hw := { s.hw with ireq := false } }
      else none
    | _ => none
  | .readTime =>
    match s.call with
    | .idle => some { s with call := .time s.tm.nextTime s.tm.nextSubtime }
    | _ => none
  | .readClock1 =>
    match s.call with
    | .time time subtime =>
      some { s with call := .clock time subtime (BitVec.ofNat 32 s.hw.clock) s.hw }
    | _ => none
  | .probe =>
    match s.call with
    | .clock time subtime clock1 first =>
      some { s with call := .probe time subtime clock1 s.hw.ireq first }
    | _ => none
  | .readClock2 =>
    match s.call with
    | .probe time subtime clock1 ireq first =>
      let value := getUtm cfg time subtime clock1 ireq (BitVec.ofNat 32 s.hw.clock)
      some { s with call := .idle, log := s.log ++ [⟨value, first, s.hw⟩] }
    | _ => none

/-- After `initialize_tmevt` and the start of the timer. -/
def start (cfg : Cfg) : Sys := ⟨initializeTmevt cfg, ⟨0, 0, false⟩, .idle, []⟩

abbrev Run (cfg : Cfg) : Sys → List Event → Sys → Prop :=
  Trans.Run fun s e s' => s.step cfg e = some s'

/-- The length of a tick in microseconds. -/
def tick (cfg : Cfg) : ℚ := 1000 * cfg.ticNume.toNat / cfg.ticDeno.toNat

/-- The time that has elapsed since the start, in microseconds. -/
def Instant.elapsed (cfg : Cfg) (x : Instant) : ℚ := x.wraps * tick cfg + x.clock

/-- The start of a tick in microseconds, rounded down. -/
def tickUsec (cfg : Cfg) (n : Nat) : Nat := n * (1000 * cfg.ticNume.toNat) / cfg.ticDeno.toNat

/-- What the clock shows, without a bound: the software has counted the wraps but the one whose request
is still there. -/
def Instant.shown (cfg : Cfg) (x : Instant) : Nat :=
  if x.ireq then tickUsec cfg x.wraps + x.clock
  else tickUsec cfg (x.wraps + 1) - period cfg + x.clock

section
variable {cfg : Cfg} {x y z : Instant} {m n : Nat}

theorem tickUsec_add (cfg : Cfg) (n : Nat) :
    tickUsec cfg n + period cfg ≤ tickUsec cfg (n + 1) := by
  unfold tickUsec period
  rw [Nat.succ_mul n]
  exact Nat.div_add_div_le_add_div ..

theorem tickUsec_le (cfg : Cfg) (n : Nat) : (tickUsec cfg n : ℚ) ≤ n * tick cfg ∧
    n * tick cfg < tickUsec cfg n + 1 := by
  have hd : (0 : ℚ) < cfg.ticDeno.toNat := by exact_mod_cast deno_pos cfg
  have he : (n : ℚ) * tick cfg = (n * (1000 * cfg.ticNume.toNat) : Nat) / cfg.ticDeno.toNat := by
    unfold tick
    push_cast
    exact (mul_div_assoc ..).symm
  rw [he, le_div_iff₀ hd, div_lt_iff₀ hd]
  unfold tickUsec
  constructor
  · exact_mod_cast Nat.div_mul_le_self ..
  · have hlt := Nat.lt_mul_div_succ (n * (1000 * cfg.ticNume.toNat)) (deno_pos cfg)
    rw [Nat.mul_comm cfg.ticDeno.toNat] at hlt
    exact_mod_cast hlt

theorem tickUsec_one (cfg : Cfg) : tickUsec cfg 1 = period cfg := by
  unfold tickUsec period
  rw [Nat.one_mul]

theorem tickUsec_mono (cfg : Cfg) (h : m ≤ n) : tickUsec cfg m ≤ tickUsec cfg n :=
  Nat.div_le_div_right (Nat.mul_le_mul_right _ h)

theorem period_le_succ (cfg : Cfg) (n : Nat) : period cfg ≤ tickUsec cfg (n + 1) :=
  (tickUsec_one cfg).ge.trans (tickUsec_mono cfg (Nat.le_add_left 1 n))

/-- What the clock shows is the elapsed time but for the rounding. -/
theorem Instant.shown_elapsed (cfg : Cfg) (x : Instant) : x.elapsed cfg - 1 ≤ x.shown cfg ∧
    (x.shown cfg : ℚ) ≤ x.elapsed cfg + (tick cfg - period cfg) := by
  have hperiod := tickUsec_le cfg 1
  rw [tickUsec_one, Nat.cast_one, one_mul] at hperiod
  unfold Instant.elapsed Instant.shown
  split
  · have h := tickUsec_le cfg x.wraps
    push_cast
    constructor
    · linarith
    · linarith
  · have h := tickUsec_le cfg (x.wraps + 1)
    push_cast [Nat.cast_sub (period_le_succ cfg x.wraps)] at h ⊢
    constructor
    · linarith
    · linarith

/-- The moments of a call: the timer has gone on, and has wrapped around at most once. -/
def Instant.Until (x y : Instant) : Prop :=
  (x.wraps = y.wraps ∧ x.ireq = y.ireq ∧ x.clock ≤ y.clock) ∨
    (x.wraps + 1 = y.wraps ∧ x.ireq = false ∧ y.ireq = true)

theorem Instant.Until.shown_le (h : x.Until y) (hx : x.clock ≤ period cfg) :
    x.shown cfg ≤ y.shown cfg := by
  unfold Instant.shown
  rcases h with ⟨hw, hi, hc⟩ | ⟨hw, hi, hi'⟩
  · rw [hw, hi]
    split
    · omega
    · omega
  · have hle := period_le_succ cfg x.wraps
    rw [hi, hi', ← hw, if_pos rfl, if_neg Bool.false_ne_true]
    omega

theorem Instant.Until.elapsed_le (h : x.Until y) (hx : x.clock ≤ period cfg) :
    x.elapsed cfg ≤ y.elapsed cfg := by
  unfold Instant.elapsed
  rcases h with ⟨hw, -, hc⟩ | ⟨hw, -, -⟩
  · rw [hw]
    have hc : (x.clock : ℚ) ≤ y.clock := by exact_mod_cast hc
    linarith
  · have hperiod : (period cfg : ℚ) ≤ tick cfg := by
      have h := (tickUsec_le cfg 1).1
      rwa [tickUsec_one, Nat.cast_one, one_mul] at h
    have hx : (x.clock : ℚ) ≤ period cfg := by exact_mod_cast hx
    have hy : (0 : ℚ) ≤ y.clock := Nat.cast_nonneg _
    rw [← hw]
    push_cast
    linarith

theorem period_lt (hn : 1000 * cfg.ticNume.toNat < 2 ^ 32) : period cfg < 2 ^ 32 :=
  Nat.lt_of_le_of_lt (Nat.div_le_self ..) hn

theorem mul_toNat (x : BitVec 32) (h : x.toNat * 1000 < 2 ^ 32) :
    (x * 1000).toNat = x.toNat * 1000 := by
  rw [BitVec.toNat_mul]
  exact Nat.mod_eq_of_lt h

/-- `next_time` and `next_subtime` in microseconds. -/
theorem utime_eq {tm : Timer} (hd : 1000 * cfg.ticDeno.toNat < 2 ^ 32)
    (hx : tm.Exact cfg.ticNume cfg.ticDeno n next) :
    tm.nextTime * 1000 + tm.nextSubtime * 1000 / cfg.ticDeno =
      BitVec.ofNat 32 (tickUsec cfg (n + 1)) := by
  have hpos := deno_pos cfg
  have hlt := hx.lt
  have hsub : (tm.nextSubtime * 1000 / cfg.ticDeno) =
      BitVec.ofNat 32 (tm.nextSubtime.toNat * 1000 / cfg.ticDeno.toNat) := by
    apply BitVec.eq_of_toNat_eq
    have hle : tm.nextSubtime.toNat * 1000 / cfg.ticDeno.toNat ≤ tm.nextSubtime.toNat * 1000 :=
      Nat.div_le_self ..
    rw [BitVec.toNat_udiv, mul_toNat _ (by omega), BitVec.toNat_ofNat,
      Nat.mod_eq_of_lt (by omega)]
  have he : tickUsec cfg (n + 1) =
      next * 1000 + tm.nextSubtime.toNat * 1000 / cfg.ticDeno.toNat := by
    unfold tickUsec
    rw [Nat.mul_left_comm, ← hx.sum, Nat.mul_comm 1000, Nat.add_mul, Nat.mul_right_comm,
      Nat.add_comm, Nat.add_mul_div_right _ _ hpos, Nat.add_comm]
  rw [hsub, he, BitVec.ofNat_add, BitVec.ofNat_mul, hx.next_eq]
  rfl

theorem period_eq (hn : 1000 * cfg.ticNume.toNat < 2 ^ 32) :
    cfg.ticNume * 1000 / cfg.ticDeno = BitVec.ofNat 32 (period cfg) := by
  have hlt := period_lt hn
  apply BitVec.eq_of_toNat_eq
  rw [BitVec.toNat_udiv, mul_toNat _ (by omega), BitVec.toNat_ofNat, Nat.mod_eq_of_lt hlt,
    Nat.mul_comm]
  rfl

/-- The result of `get_utm` without its reduction. -/
theorem getUtm_eq {tm : Timer} (hn : 1000 * cfg.ticNume.toNat < 2 ^ 32)
    (hd : 1000 * cfg.ticDeno.toNat < 2 ^ 32) (hx : tm.Exact cfg.ticNume cfg.ticDeno n next)
    (h1 : c1 ≤ period cfg) (h2 : c2 ≤ period cfg) (ireq : Bool) :
    getUtm cfg tm.nextTime tm.nextSubtime (BitVec.ofNat 32 c1) ireq (BitVec.ofNat 32 c2) =
      BitVec.ofNat 32 ((if ireq = false ∨ c2 < c1 then tickUsec cfg (n + 1) - period cfg
        else tickUsec cfg (n + 1)) + c1) := by
  have hp := period_lt hn
  have hgt : (BitVec.ofNat 32 c1 > BitVec.ofNat 32 c2) = (c2 < c1) := by
    apply propext
    change (BitVec.ofNat 32 c2) < (BitVec.ofNat 32 c1) ↔ _
    rw [BitVec.lt_def, BitVec.toNat_ofNat, BitVec.toNat_ofNat, Nat.mod_eq_of_lt (by omega),
      Nat.mod_eq_of_lt (by omega)]
  have hsub : BitVec.ofNat 32 (tickUsec cfg (n + 1)) - BitVec.ofNat 32 (period cfg) =
      BitVec.ofNat 32 (tickUsec cfg (n + 1) - period cfg) := by
    obtain ⟨r, hr⟩ := Nat.exists_eq_add_of_le (period_le_succ cfg n)
    rw [hr, Nat.add_comm, BitVec.ofNat_add, BitVec.add_sub_cancel, Nat.add_sub_cancel]
  unfold getUtm
  simp only [utime_eq hd hx, period_eq hn, hsub, hgt, Bool.or_eq_true, Bool.not_eq_true',
    decide_eq_true_eq]
  rw [BitVec.ofNat_add]
  congr 1
  split
  · rfl
  · rfl

theorem Instant.Until.refl (x : Instant) : x.Until x := .inl ⟨rfl, rfl, Nat.le_refl _⟩

theorem Instant.Until.trans (h : x.Until y) (h' : y.Until z) : x.Until z := by
  rcases h with ⟨hw, hi, hc⟩ | ⟨hw, hi, hy⟩
  · rcases h' with ⟨hw', hi', hc'⟩ | ⟨hw', hi', hz⟩
    · exact .inl ⟨hw.trans hw', hi.trans hi', hc.trans hc'⟩
    · exact .inr ⟨(congrArg (· + 1) hw).trans hw', hi.trans hi', hz⟩
  · rcases h' with ⟨hw', hi', hc'⟩ | ⟨hw', hi', hz⟩
    · exact .inr ⟨hw.trans hw', hi, hi'.symm.trans hy⟩
    · cases hy.symm.trans hi'

/-- The ticks that `signal_time` has counted. -/
def Counted (cfg : Cfg) (n : Nat) (s : Sys) : Prop :=
  (∃ next, s.tm.Exact cfg.ticNume cfg.ticDeno n next) ∧
    s.hw.wraps = if s.hw.ireq then n + 1 else n

/-- What a call has read is right. -/
structure Looked (cfg : Cfg) (s : Sys) (time : EVTTIM) (subtime : BitVec 32) (clock1 : CLOCK)
    (first : Instant) : Prop where
  time : time = s.tm.nextTime
  subtime : subtime = s.tm.nextSubtime
  clock1 : clock1 = BitVec.ofNat 32 first.clock
  le : first.clock ≤ period cfg
  goes : first.Until s.hw

def Sys.CallOk (cfg : Cfg) (s : Sys) : Prop :=
  match s.call with
  | .idle => True
  | .time time subtime => time = s.tm.nextTime ∧ subtime = s.tm.nextSubtime
  | .clock time subtime clock1 first => Looked cfg s time subtime clock1 first
  | .probe time subtime clock1 ireq first => Looked cfg s time subtime clock1 first ∧
    (ireq = false → first.ireq = false) ∧ (ireq = true → s.hw.ireq = true)

/-- The earliest moment that a call may still be about. -/
def Sys.since (s : Sys) : Instant :=
  match s.call with
  | .clock _ _ _ first | .probe _ _ _ _ first => first
  | _ => s.hw

/-- The result without its reduction is the true time at some moment of the call, but for the rounding. -/
def Reading.Ok (cfg : Cfg) (r : Reading) (v : Nat) : Prop :=
  r.value = BitVec.ofNat 32 v ∧ ∃ time : ℚ, r.first.elapsed cfg ≤ time ∧
    time ≤ r.last.elapsed cfg ∧ |v - time| ≤ (tick cfg - period cfg) + 1

structure Inv (cfg : Cfg) (vs : List Nat) (s : Sys) : Prop where
  counted : ∃ n, Counted cfg n s
  clock : s.hw.clock ≤ period cfg
  call : s.CallOk cfg
  shown : ∀ v ∈ vs, v ≤ s.since.shown cfg
  sorted : vs.Pairwise (· ≤ ·)
  log : List.Forall₂ (Reading.Ok cfg) s.log vs

variable {s s' : Sys} {vs : List Nat}

/-- What `get_utm` computes lies between what the clock shows at its first look and at its last. -/
theorem Looked.between {t : EVTTIM} {u : BitVec 32} {c : CLOCK} {first : Instant}
    (h : Looked cfg s t u c first) (hc : Counted cfg n s)
    (hf : ireq = false → first.ireq = false) (ht : ireq = true → s.hw.ireq = true)
    (hv : v = (if ireq = false ∨ s.hw.clock < first.clock then tickUsec cfg (n + 1) - period cfg
      else tickUsec cfg (n + 1)) + first.clock) :
    first.shown cfg ≤ v ∧ v ≤ s.hw.shown cfg := by
  have hle := h.goes.shown_le h.le
  have hw := hc.2
  -- the request was not there at the first look
  have early (hfi : first.ireq = false) (hfw : first.wraps = n) : first.shown cfg =
      tickUsec cfg (n + 1) - period cfg + first.clock := by
    unfold Instant.shown
    rw [hfi, hfw, if_neg Bool.false_ne_true]
  cases ireq with
  | false =>
    rw [if_pos (.inl rfl)] at hv
    have hfi := hf rfl
    have hfw : first.wraps = n := by
      rcases h.goes with ⟨he, hi, -⟩ | ⟨he, -, hi⟩
      · rw [← hi, hfi, if_neg Bool.false_ne_true] at hw
        exact he.trans hw
      · rw [hi, if_pos rfl] at hw
        omega
    rw [hv, ← early hfi hfw]
    exact ⟨Nat.le_refl _, hle⟩
  | true =>
    have hi := ht rfl
    rw [hi, if_pos rfl] at hw
    have hshown : s.hw.shown cfg = tickUsec cfg (n + 1) + s.hw.clock := by
      unfold Instant.shown
      rw [hi, hw, if_pos rfl]
    rcases h.goes with ⟨he, hfi, hle'⟩ | ⟨he, hfi, -⟩
    · have hfs : first.shown cfg = tickUsec cfg (n + 1) + first.clock := by
        unfold Instant.shown
        rw [hfi, he, hi, hw, if_pos rfl]
      have hn : ¬(true = false ∨ s.hw.clock < first.clock) := by
        rintro (h | h)
        · cases h
        · omega
      rw [if_neg hn] at hv
      omega
    · have hfs := early hfi (by omega)
      split at hv
      · omega
      · rename_i hn
        have hlt : ¬ s.hw.clock < first.clock := fun h => hn (.inr h)
        omega

/-- A value that lies between is right. -/
theorem Reading.ok_of_between {r : Reading} (hv : r.value = BitVec.ofNat 32 v)
    (hle : r.first.elapsed cfg ≤ r.last.elapsed cfg)
    (h : r.first.shown cfg ≤ v ∧ v ≤ r.last.shown cfg) : r.Ok cfg v := by
  have h1 := (r.first.shown_elapsed cfg).1
  have h2 := (r.last.shown_elapsed cfg).2
  have hl : (r.first.shown cfg : ℚ) ≤ v := by exact_mod_cast h.1
  have hu : (v : ℚ) ≤ r.last.shown cfg := by exact_mod_cast h.2
  have hperiod : (period cfg : ℚ) ≤ tick cfg := by
    have h := (tickUsec_le cfg 1).1
    rwa [tickUsec_one, Nat.cast_one, one_mul] at h
  refine ⟨hv, ?_⟩
  rcases lt_or_ge (v : ℚ) (r.first.elapsed cfg) with hlt | hge
  · refine ⟨r.first.elapsed cfg, le_refl _, hle, ?_⟩
    rw [abs_le]
    constructor
    · linarith
    · linarith
  · rcases lt_or_ge (r.last.elapsed cfg) (v : ℚ) with hlt | hge'
    · refine ⟨r.last.elapsed cfg, hle, le_refl _, ?_⟩
      rw [abs_le]
      constructor
      · linarith
      · linarith
    · refine ⟨v, hge, hge', ?_⟩
      rw [sub_self, abs_zero]
      linarith

/-- The timer goes on. -/
theorem Inv.goes {x : Instant} (h : Inv cfg vs s) (hu : s.hw.Until x) (hx : x.clock ≤ period cfg)
    (hr : s.hw.ireq = true → x.ireq = true) (hc : ∃ n, Counted cfg n { s with hw := x }) :
    Inv cfg vs { s with hw := x } where
  counted := hc
  clock := hx
  call := by
    have hcall := h.call
    simp only [Sys.CallOk] at hcall ⊢
    split at hcall
    · trivial
    · exact hcall
    · exact ⟨hcall.time, hcall.subtime, hcall.clock1, hcall.le, hcall.goes.trans hu⟩
    · obtain ⟨hl, hf, ht⟩ := hcall
      exact ⟨⟨hl.time, hl.subtime, hl.clock1, hl.le, hl.goes.trans hu⟩, hf, fun hi => hr (ht hi)⟩
  shown := by
    intro v hv
    have hle := h.shown v hv
    cases hs : s.call with
    | idle | time time subtime =>
      simp only [Sys.since, hs] at hle ⊢
      exact hle.trans (hu.shown_le h.clock)
    | clock time subtime clock1 first | probe time subtime clock1 ireq first =>
      simp only [Sys.since, hs] at hle ⊢
      exact hle
  sorted := h.sorted
  log := h.log

/-- `signal_time` clears the request and goes on by a tick: what the clock shows grows by the rounding. -/
theorem Inv.signal (h : Inv cfg vs s) (hok : ticOk cfg.ticNume cfg.ticDeno) (hs : s.call = .idle)
    (hi : s.hw.ireq = true) :
    Inv cfg vs { s with
      tm := s.tm.sigBegin cfg.ticNume cfg.ticDeno, hw := { s.hw with ireq := false } } := by
  obtain ⟨n, ⟨next, hx⟩, hw⟩ := h.counted
  rw [if_pos hi] at hw
  refine ⟨⟨n + 1, ⟨_, hx.sigBegin hok⟩, hw⟩, h.clock, ?_, ?_, h.sorted, h.log⟩
  · simp only [Sys.CallOk, hs]
  · intro v hv
    have hle := h.shown v hv
    have hadd := tickUsec_add cfg s.hw.wraps
    simp only [Sys.since, hs, Instant.shown, hi, if_true] at hle ⊢
    rw [if_neg Bool.false_ne_true]
    omega

/-- A call does not change the timer. -/
theorem Inv.look {call : Call} (h : Inv cfg vs s) (hc : Sys.CallOk cfg { s with call := call })
    (hle : s.since.shown cfg ≤ ({ s with call := call } : Sys).since.shown cfg) :
    Inv cfg vs { s with call := call } where
  counted := h.counted
  clock := h.clock
  call := hc
  shown v hv := (h.shown v hv).trans hle
  sorted := h.sorted
  log := h.log

theorem Inv.step (h : Inv cfg vs s) (hn : 1000 * cfg.ticNume.toNat < 2 ^ 32)
    (hd : 1000 * cfg.ticDeno.toNat < 2 ^ 32) (hs : s.step cfg e = some s') :
    ∃ vs', Inv cfg vs' s' := by
  have hok : ticOk cfg.ticNume cfg.ticDeno := ticOk_of_le cfg.tic_deno_pos (by omega)
  cases e with
  | count =>
    obtain ⟨hlt, ⟨⟩⟩ := Option.ite_none_right_eq_some.1 hs
    exact ⟨vs, h.goes (.inl ⟨rfl, rfl, Nat.le_succ _⟩) hlt id h.counted⟩
  | wrap =>
    obtain ⟨⟨hc, hi⟩, ⟨⟩⟩ := Option.ite_none_right_eq_some.1 hs
    obtain ⟨n, hx, hw⟩ := h.counted
    rw [hi, if_neg Bool.false_ne_true] at hw
    refine ⟨vs, h.goes (.inr ⟨rfl, hi, rfl⟩) (Nat.zero_le _) (fun _ => rfl) ⟨n, hx, ?_⟩⟩
    exact congrArg (· + 1) hw
  | signal =>
    simp only [Sys.step] at hs
    split at hs
    · rename_i hcall
      obtain ⟨hi, ⟨⟩⟩ := Option.ite_none_right_eq_some.1 hs
      exact ⟨vs, h.signal hok hcall hi⟩
    · cases hs
  | readTime =>
    simp only [Sys.step] at hs
    split at hs
    · rename_i hcall
      cases hs
      refine ⟨vs, h.look ⟨rfl, rfl⟩ ?_⟩
      simp only [Sys.since, hcall, Nat.le_refl]
    · cases hs
  | readClock1 =>
    simp only [Sys.step] at hs
    split at hs
    · rename_i time subtime hcall
      cases hs
      have hlook := h.call
      simp only [Sys.CallOk, hcall] at hlook
      refine ⟨vs, h.look ⟨hlook.1, hlook.2, rfl, h.clock, .refl _⟩ ?_⟩
      simp only [Sys.since, hcall, Nat.le_refl]
    · cases hs
  | probe =>
    simp only [Sys.step] at hs
    split at hs
    · rename_i time subtime clock1 first hcall
      cases hs
      have hlook := h.call
      simp only [Sys.CallOk, hcall] at hlook
      refine ⟨vs, h.look ⟨⟨hlook.time, hlook.subtime, hlook.clock1, hlook.le, hlook.goes⟩, ?_, id⟩ ?_⟩
      · intro hi
        rcases hlook.goes with ⟨-, hf, -⟩ | ⟨-, hf, -⟩
        · exact hf.trans hi
        · exact hf
      · simp only [Sys.since, hcall, Nat.le_refl]
    · cases hs
  | readClock2 =>
    simp only [Sys.step] at hs
    split at hs
    · rename_i time subtime clock1 ireq first hcall
      cases hs
      have hlook := h.call
      simp only [Sys.CallOk, hcall] at hlook
      obtain ⟨hl, hf, ht⟩ := hlook
      obtain ⟨n, hc⟩ := h.counted
      obtain ⟨next, hx⟩ := hc.1
      have hv := getUtm_eq hn hd hx hl.le h.clock ireq
      rw [← hl.time, ← hl.subtime, ← hl.clock1] at hv
      obtain ⟨v, hv, hlo, hhi⟩ : ∃ v, getUtm cfg time subtime clock1 ireq (BitVec.ofNat 32 s.hw.clock) =
          BitVec.ofNat 32 v ∧ first.shown cfg ≤ v ∧ v ≤ s.hw.shown cfg :=
        ⟨_, hv, hl.between hc hf ht rfl⟩
      have hle : ∀ v ∈ vs, v ≤ first.shown cfg := by
        intro v hm
        have hle := h.shown v hm
        simp only [Sys.since, hcall] at hle
        exact hle
      refine ⟨vs ++ [v], h.counted, h.clock, trivial, ?_, ?_, ?_⟩
      · intro w hm
        rcases List.mem_append.1 hm with hm | hm
        · exact (hle w hm).trans (hlo.trans hhi)
        · exact (List.mem_singleton.1 hm) ▸ hhi
      · apply List.pairwise_append.2
        refine ⟨h.sorted, List.pairwise_singleton .., fun w hm w' hw => ?_⟩
        exact (List.mem_singleton.1 hw) ▸ (hle w hm).trans hlo
      · apply List.rel_append h.log
        exact .cons (Reading.ok_of_between hv (hl.goes.elapsed_le hl.le) ⟨hlo, hhi⟩) .nil
    · cases hs

theorem start_inv (cfg : Cfg) : Inv cfg [] (start cfg) where
  counted := ⟨0, ⟨_, initializeTmevt_exact cfg⟩, rfl⟩
  clock := Nat.zero_le _
  call := trivial
  shown _ hv := nomatch hv
  sorted := .nil
  log := .nil

/-- The microsecond clock never goes backwards, and is right but for the rounding of a tick. -/
theorem run_getUtm (hr : Run cfg (start cfg) es s) (hn : 1000 * cfg.ticNume.toNat < 2 ^ 32)
    (hd : 1000 * cfg.ticDeno.toNat < 2 ^ 32) :
    ∃ vs : List Nat, List.Forall₂ (Reading.Ok cfg) s.log vs ∧ vs.Pairwise (· ≤ ·) := by
  obtain ⟨vs, h⟩ := hr.invariant (I := fun s => ∃ vs, Inv cfg vs s)
    (fun _ _ _ ⟨_, h⟩ hs => h.step hn hd hs) ⟨[], start_inv cfg⟩
  exact ⟨vs, h.log, h.sorted⟩

end

/-- The timer wraps around between the reads of the second call. -/
theorem run_getUtm_fast : ∃ s,
    [Event.count, .readTime, .readClock1, .probe, .readClock2, .count, .readTime, .readClock1, .wrap,
      .probe, .readClock2, .signal, .readTime, .readClock1, .probe, .readClock2].foldlM
      (Sys.step fast) (start fast) = some s ∧ s.log.map Reading.value = [1, 2, 3] ∧
    ∃ vs : List Nat, List.Forall₂ (Reading.Ok fast) s.log vs ∧ vs.Pairwise (· ≤ ·) := by
  have h : ([Event.count, .readTime, .readClock1, .probe, .readClock2, .count, .readTime, .readClock1,
      .wrap, .probe, .readClock2, .signal, .readTime, .readClock1, .probe, .readClock2].foldlM
      (Sys.step fast) (start fast)).any (fun s => s.log.map Reading.value == [1, 2, 3]) = true := by
    decide +kernel
  obtain ⟨s, hs, h⟩ := (Option.any_eq_true _ _).1 h
  exact ⟨s, hs, eq_of_beq h,
    run_getUtm (Trans.Run.of_foldlM hs) (by decide) (by decide)⟩

end Utm

end AspKernel
