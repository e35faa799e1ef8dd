import AspKernel.SysArch
import AspKernel.ThreadInv
import AspKernel.Reach
import Mathlib.Order.Interval.Set.Defs
import Mathlib.Algebra.Order.Ring.Int
import Mathlib.Data.Int.ConditionallyCompleteOrder

/-! The time base of lwIP. -/

namespace AspKernel.SysArch
open App
set_option autoImplicit true

inductive TimeApi
  | sysNow
  | sysArchMboxFetch (mbox : ID) (timeout : BitVec 32)
  | sysArchSemWait (sem : ID) (timeout : BitVec 32)

abbrev TimeApi.Res : TimeApi → Type
  | .sysNow | .sysArchSemWait _ _ => BitVec 32
  | .sysArchMboxFetch _ _ => BitVec 32 × Option IntPtr

/-- The functions that tell the time. -/
def timeLib : Library where
  Api := TimeApi
  Res := TimeApi.Res
  code
    | .sysNow => sysNow
    | .sysArchMboxFetch mbox timeout => sysArchMboxFetch mbox timeout
    | .sysArchSemWait sem timeout => sysArchSemWait sem timeout

/-- The times at which a call has read the ticker. -/
def instants (hist : Hist) : List Nat :=
  hist.filterMap fun
    | ⟨.usTickerRead, _, t⟩ => some t
    | _ => none

/-- A call of `sys_now` at a time has returned a value. -/
def Now (s : Sys timeLib) (t : Nat) (v : BitVec 32) : Prop :=
  ∃ w hist, ⟨w, .sysNow, hist, v⟩ ∈ s.rets ∧ instants hist = [t]

/-- A call that waits has returned a value. -/
def Waited (s : Sys timeLib) (hist : Hist) (v : BitVec 32) : Prop :=
  (∃ w mbox timeout msg, ⟨w, .sysArchMboxFetch mbox timeout, hist, (v, msg)⟩ ∈ s.rets) ∨
  ∃ w sem timeout, ⟨w, .sysArchSemWait sem timeout, hist, v⟩ ∈ s.rets

/-- A difference is a number of milliseconds modulo `2 ^ 32`, up to rounding. -/
def Close (v : BitVec 32) (n : Nat) : Prop :=
  v = BitVec.ofNat 32 n ∨ v = BitVec.ofNat 32 n + 1 ∨ v + 1 = BitVec.ofNat 32 n

section
variable {cfg : Cfg} {s : Sys timeLib}

theorem close_sub (a b : BitVec 32) (n : Nat) : Close (a - b) n ↔
    ∃ k : Int, (a.toNat : Int) - b.toNat - n - 2 ^ 32 * k ∈ Set.Icc (-1) 1 := by
  have ha := a.isLt
  have hb := b.isLt
  have h1 : (1 : BitVec 32).toNat = 1 := rfl
  unfold Close
  simp only [← BitVec.toNat_inj, BitVec.toNat_sub, BitVec.toNat_add, BitVec.toNat_ofNat, h1,
    Set.mem_Icc]
  constructor
  · rintro (h | h | h)
    · exact ⟨((a.toNat : Int) - b.toNat - n) / 2 ^ 32, by omega⟩
    · exact ⟨((a.toNat : Int) - b.toNat - n - 1) / 2 ^ 32, by omega⟩
    · exact ⟨((a.toNat : Int) - b.toNat - n + 1) / 2 ^ 32, by omega⟩
  · rintro ⟨k, hk⟩
    omega

theorem ticks_toNat (t : Nat) : (BitVec.ofNat 32 t / 1000).toNat = t % 2 ^ 32 / 1000 := by
  rw [BitVec.toNat_udiv, BitVec.toNat_ofNat]
  rfl

/-- The counter is divided after it has wrapped around, so every wrap loses 704 of the counts that
a count of milliseconds with 32 bits has. -/
theorem ticks_close (h : t ≤ t') :
    Close (BitVec.ofNat 32 t' / 1000 - BitVec.ofNat 32 t / 1000) ((t' - t) / 1000) ↔
      1000 ∣ t' / 2 ^ 32 - t / 2 ^ 32 := by
  rw [close_sub, ticks_toNat, ticks_toNat]
  simp only [Set.mem_Icc]
  constructor
  · rintro ⟨k, hk⟩
    have hq : (t' / 2 ^ 32 - t / 2 ^ 32 : Int) + 1000 * k = 0 := by omega
    omega
  · rintro ⟨k, hk⟩
    exact ⟨-k, by omega⟩

theorem ticks_elapsed (h : t ≤ t') :
    ((BitVec.ofNat 32 t' - BitVec.ofNat 32 t) / 1000).toNat = (t' - t) / 1000 ↔
      t' - t < 2 ^ 32 := by
  rw [BitVec.toNat_udiv, BitVec.toNat_sub, BitVec.toNat_ofNat, BitVec.toNat_ofNat]
  change _ / 1000 = _ ↔ _
  omega

theorem Now.eq (h : App.Reachable cfg s) (hn : Now s t v) : v = BitVec.ofNat 32 t / 1000 := by
  obtain ⟨w, hist, hr, hi⟩ := hn
  have hl := h.logged.ret _ hr
  obtain ⟨r, t', rfl, rfl⟩ := sysNow_ret hl.trace
  cases hi
  exact congrArg (· / 1000) (hl.tick _ (List.mem_singleton_self _))

/-- A call that waits reads the ticker twice, unless its time-out has passed. -/
theorem Waited.eq (h : App.Reachable cfg s) (hw : Waited s hist v) (hv : v ≠ SYS_ARCH_TIMEOUT) :
    ∃ t t', t ≤ t' ∧ instants hist = [t, t'] ∧
      v = (BitVec.ofNat 32 t' - BitVec.ofNat 32 t) / 1000 := by
  have key {a : timeLib.Api} {res : timeLib.Res a} {start t call r t' now t''}
      (hl : Logged s.clock a [⟨.usTickerRead, start, t⟩, ⟨.svc call, r, t'⟩,
        ⟨.usTickerRead, now, t''⟩] (.ret res)) (hv : v = (now - start) / 1000) :
      ∃ t1 t2, t1 ≤ t2 ∧ [t, t''] = [t1, t2] ∧
        v = (BitVec.ofNat 32 t2 - BitVec.ofNat 32 t1) / 1000 := by
    have h1 : start = BitVec.ofNat 32 t := hl.tick _ List.mem_cons_self
    have h2 : now = BitVec.ofNat 32 t'' :=
      hl.tick ⟨.usTickerRead, now, t''⟩ (.tail _ (.tail _ (.head _)))
    have hs := (List.pairwise_cons.1 hl.sorted).1 ⟨.usTickerRead, now, t''⟩ (.tail _ (.head _))
    exact ⟨t, t'', hs, rfl, h1 ▸ h2 ▸ hv⟩
  rcases hw with ⟨w, mbox, timeout, msg, hr⟩ | ⟨w, sem, timeout, hr⟩
  · have hl := h.logged.ret _ hr
    obtain ⟨start, t, ercd, out, t', l, rfl, -, -, hc⟩ := sysArchMboxFetch_ret hl.trace
    rcases hc with ⟨-, -, -, hto⟩ | ⟨-, now, t'', rfl, hn⟩
    · exact absurd hto hv
    · exact key hl hn
  · have hl := h.logged.ret _ hr
    obtain ⟨start, t, ercd, out, t', l, rfl, hc⟩ := sysArchSemWait_ret hl.trace
    rcases hc with ⟨-, -, -, hto⟩ | ⟨-, now, t'', rfl, hn⟩
    · exact absurd hto hv
    · exact key hl hn

/-- `sys_now` can be called at any time. -/
theorem now_call (h : App.Reachable cfg s) (hp : party s.kernel = some w)
    (hi : s.thread w = .idle) : ∃ s', App.Reachable cfg s' ∧ s'.kernel = s.kernel ∧
      s'.clock = s.clock ∧ s'.thread w = .idle ∧ s'.rets = s.rets ++
        [⟨w, .sysNow, [⟨.usTickerRead, BitVec.ofNat 32 s.clock, s.clock⟩],
          BitVec.ofNat 32 s.clock / 1000⟩] := by
  let s1 := s.goto w (Thread.go (L := timeLib) w .sysNow [] sysNow)
  have h1 : App.Step cfg s (.start .sysNow) s1 := by
    unfold App.Step Sys.step
    simp only [hp, hi]
    rfl
  have ht : s1.thread w = (Thread.go (L := timeLib) w .sysNow [] sysNow).1 :=
    Function.update_self _ _ _
  let s2 := s1.goto w (.idle, [⟨w, .sysNow, [⟨.usTickerRead, BitVec.ofNat 32 s.clock, s.clock⟩],
    BitVec.ofNat 32 s.clock / 1000⟩])
  have h2 : App.Step cfg s1 .run s2 := by
    unfold App.Step Sys.step
    rw [show party s1.kernel = some w from hp]
    simp only [ht]
    rfl
  refine ⟨s2, (h.snoc h1).snoc h2, rfl, rfl, Function.update_self _ _ _, ?_⟩
  exact congrArg (· ++ _) (List.append_nil s.rets)

theorem reachable_now (hp : party (AspKernel.boot cfg) = some w) (h : t ≤ t') :
    ∃ s, App.Reachable cfg s ∧ Now s t (BitVec.ofNat 32 t / 1000) ∧
      Now s t' (BitVec.ofNat 32 t' / 1000) := by
  have wait {s : Sys timeLib} (hs : App.Reachable cfg s) (us : Nat) :
      App.Reachable cfg { s with clock := s.clock + us } := hs.snoc (x := .elapse us) rfl
  have h0 : App.Reachable cfg (Sys.boot (L := timeLib) cfg) := ⟨[], .nil⟩
  obtain ⟨s1, h1, hk, hc, hi, hr⟩ := now_call (wait h0 t) hp rfl
  obtain ⟨s2, h2, -, -, -, hr'⟩ := now_call (wait h1 (t' - t)) (hk ▸ hp) hi
  have ht : (Sys.boot (L := timeLib) cfg).clock + t = t := Nat.zero_add t
  have ht' : s1.clock + (t' - t) = t' := by
    rw [hc]
    change 0 + t + (t' - t) = t'
    omega
  simp only [ht] at hr
  simp only [ht', hr] at hr'
  refine ⟨s2, h2, ⟨w, [⟨.usTickerRead, BitVec.ofNat 32 t, t⟩], ?_, rfl⟩,
    w, [⟨.usTickerRead, BitVec.ofNat 32 t', t'⟩], ?_, rfl⟩
  · rw [hr']
    exact List.mem_append_left _ (List.mem_append_right _ (List.mem_singleton_self _))
  · rw [hr']
    exact List.mem_append_right _ (List.mem_singleton_self _)

/-- The differences of `sys_now` count milliseconds exactly when the ticker has wrapped around a
multiple of 1000 times in between, and the results of the waiting calls exactly when it has not
come round. -/
theorem reachable_time (h : App.Reachable cfg s) :
    (∀ t t' v v', Now s t v → Now s t' v' → t ≤ t' →
      (Close (v' - v) ((t' - t) / 1000) ↔ 1000 ∣ t' / 2 ^ 32 - t / 2 ^ 32)) ∧
    ∀ hist v, Waited s hist v → v ≠ SYS_ARCH_TIMEOUT → ∃ t t', t ≤ t' ∧ instants hist = [t, t'] ∧
      (v.toNat = (t' - t) / 1000 ↔ t' - t < 2 ^ 32) := by
  refine ⟨fun t t' v v' hv hv' ht => ?_, fun hist v hw hv => ?_⟩
  · rw [hv.eq h, hv'.eq h]
    exact ticks_close ht
  · obtain ⟨t, t', ht, hi, rfl⟩ := hw.eq h hv
    exact ⟨t, t', ht, hi, ticks_elapsed ht⟩

end

theorem small_party : party (AspKernel.boot .small) = some (.task 0) := by decide +kernel

theorem reachable_time_wrapped : ∃ s : Sys timeLib, App.Reachable .small s ∧
    (Close (0 - 4294967) ((2 ^ 32 - (2 ^ 32 - 1)) / 1000) ↔
      1000 ∣ 2 ^ 32 / 2 ^ 32 - (2 ^ 32 - 1) / 2 ^ 32) := by
  obtain ⟨s, hs, h1, h2⟩ := reachable_now small_party (Nat.sub_le (2 ^ 32) 1)
  exact ⟨s, hs, (reachable_time hs).1 _ _ _ _ h1 h2 (Nat.sub_le _ _)⟩

/-- The ticker wraps around within a microsecond, and the difference is not that of the times. -/
theorem sysNow_wraps : ∃ s : Sys timeLib, App.Reachable .small s ∧
    Now s (2 ^ 32 - 1) 4294967 ∧ Now s (2 ^ 32) 0 ∧
      ¬Close (0 - 4294967) ((2 ^ 32 - (2 ^ 32 - 1)) / 1000) := by
  obtain ⟨s, hs, h1, h2⟩ := reachable_now small_party (Nat.sub_le (2 ^ 32) 1)
  exact ⟨s, hs, h1, h2, by unfold Close; decide⟩

end AspKernel.SysArch
