import AspKernel.Clock

namespace AspKernel
open BinHeap
set_option autoImplicit true

/-- The registrations that `tm'` has of the events of `tm` are the same; the others are new. -/
structure Timer.Carry (tm tm' : Timer) : Prop where
  serials : tm.serials ≤ tm'.serials
  reg : ∀ p, (tm'.reg p = tm.reg p ∧
      ∀ t, tm'.heap.lookup p = some t → tm.heap.lookup p = some t) ∨
    tm.serials ≤ (tm'.reg p).serial

/-- The registered events have numbers that are in use. -/
def Timer.Fresh (tm : Timer) : Prop :=
  ∀ p t, tm.heap.lookup p = some t → (tm.reg p).serial < tm.serials

/-- A relation between the ticks, the relative time and the event time of a registration holds of
all that `tmevtb_enqueue` has made. -/
def Timer.Regs (F : Nat → RELTIM → EVTTIM → Prop) (tm : Timer) : Prop :=
  ∀ p t d, tm.heap.lookup p = some t → (tm.reg p).reltim = some d → F (tm.reg p).ticks d t

section
variable {F : Nat → RELTIM → EVTTIM → Prop} {Q : TmevtbPtr → Prop} {tm tm' tm'' : Timer}

theorem Timer.Carry.refl (tm : Timer) : tm.Carry tm := ⟨Nat.le_refl _, fun _ => .inl ⟨rfl, fun _ => id⟩⟩

theorem Timer.Carry.trans (h : tm.Carry tm') (h' : tm'.Carry tm'') : tm.Carry tm'' := by
  refine ⟨Nat.le_trans h.serials h'.serials, ?_⟩
  intro p
  rcases h'.reg p with ⟨he', ht'⟩ | hs'
  · rcases h.reg p with ⟨he, ht⟩ | hs
    · exact .inl ⟨he'.trans he, fun t h => ht t (ht' t h)⟩
    · rw [he']
      exact .inr hs
  · exact .inr (Nat.le_trans h.serials hs')

/-- The heap, with the numbers and the relative times of its events. -/
structure Timer.Listed (F : Nat → RELTIM → EVTTIM → Prop) (tm : Timer) : Prop where
  heap : TmevtInv tm.minTime tm.heap tm.heap.lookup
  fresh : tm.Fresh
  regs : tm.Regs F

theorem Timer.register_lookup (h : TmevtInv tm.minTime tm.heap tm.heap.lookup)
    (hn : tm.heap.lookup p = none) (time : EVTTIM) (cb : CBack) (d : Option RELTIM) :
    (tm.register p time cb d).heap.lookup = Function.update tm.heap.lookup p (some time) :=
  (h.insert hn time).lookup_eq

theorem Timer.register_carry (h : TmevtInv tm.minTime tm.heap tm.heap.lookup)
    (hn : tm.heap.lookup p = none) (time : EVTTIM) (cb : CBack) (d : Option RELTIM) :
    tm.Carry (tm.register p time cb d) := by
  refine ⟨Nat.le_succ _, ?_⟩
  intro q
  rw [register_lookup h hn]
  by_cases hq : q = p
  · subst hq
    right
    change tm.serials ≤ (Function.update tm.reg q _ q).serial
    rw [Function.update_self]
  · left
    refine ⟨Function.update_of_ne hq .., ?_⟩
    intro t ht
    rwa [Function.update_of_ne hq] at ht

theorem Timer.Listed.register (h : tm.Listed F) (hn : tm.heap.lookup p = none) (time : EVTTIM)
    (cb : CBack) (d : Option RELTIM) (hd : ∀ r, d = some r → F tm.ticks r time) :
    (tm.register p time cb d).Listed F := by
  have hl := register_lookup h.heap hn time cb d
  refine ⟨?_, ?_, ?_⟩
  · have hi := h.heap.insert hn time
    rw [hl]
    exact hi
  · intro q t ht
    rw [hl] at ht
    change (Function.update tm.reg p _ q).serial < tm.serials + 1
    by_cases hq : q = p
    · subst hq
      rw [Function.update_self]
      exact Nat.lt_succ_self _
    · rw [Function.update_of_ne hq] at ht ⊢
      exact Nat.lt_succ_of_lt (h.fresh q t ht)
  · intro q t r ht hr
    rw [hl] at ht
    change (Function.update tm.reg p _ q).reltim = some r at hr
    change F (Function.update tm.reg p _ q).ticks r t
    by_cases hq : q = p
    · subst hq
      rw [Function.update_self] at ht hr ⊢
      cases ht
      exact hd r hr
    · rw [Function.update_of_ne hq] at ht hr ⊢
      exact h.regs q t r ht hr

/-- Events leave the heap. -/
theorem Timer.Listed.leave (h : tm.Listed F) (hi : TmevtInv tm'.minTime tm'.heap tm'.heap.lookup)
    (hl : ∀ q t, tm'.heap.lookup q = some t → tm.heap.lookup q = some t) (hr : tm'.reg = tm.reg)
    (hs : tm'.serials = tm.serials) : tm.Carry tm' ∧ tm'.Listed F := by
  refine ⟨⟨Nat.le_of_eq hs.symm, ?_⟩, hi, ?_, ?_⟩
  · intro q
    exact .inl ⟨congrFun hr q, hl q⟩
  · intro q t ht
    rw [hr, hs]
    exact h.fresh q t (hl q t ht)
  · intro q t d ht hd
    rw [hr] at hd ⊢
    exact h.regs q t d (hl q t ht) hd

theorem lookup_of_update {f : TmevtbPtr → Option EVTTIM} (h : Function.update f p none q = some t) :
    f q = some t := by
  by_cases hq : q = p
  · subst hq
    rw [Function.update_self] at h
    cases h
  · rwa [Function.update_of_ne hq] at h

theorem Timer.Listed.dequeue (h : tm.Listed F) (hp : tm.heap.lookup p = some k) :
    tm.Carry (tm.tmevtbDequeue p) ∧ (tm.tmevtbDequeue p).Listed F := by
  have hd := h.heap.delete hp
  have hl : (tm.tmevtbDequeue p).heap.lookup = _ := hd.lookup_eq
  refine h.leave ?_ ?_ rfl rfl
  · rw [hl]
    exact hd
  · intro q t ht
    rw [hl] at ht
    exact lookup_of_update ht

theorem Timer.Listed.sigPop (h : tm.Listed F) (hl : 0 < tm.heap.last) :
    tm.Carry tm.sigPop ∧ tm.sigPop.Listed F := by
  have hd := h.heap.deleteTop hl
  have he : tm.sigPop.heap.lookup = _ := hd.lookup_eq
  refine h.leave ?_ ?_ rfl rfl
  · rw [he]
    exact hd
  · intro q t ht
    rw [he] at ht
    exact lookup_of_update ht

/-- The changes of the time events; where `tmevtb_delete` is applied to registered blocks only. -/
theorem Timer.Listed.ops (h : tm.Listed F) (ho : Relation.ReflTransGen (Timer.Op Q) tm tm')
    (hok : tm'.dequeueOk = true) (hF : ∀ d ≤ TMAX_RELTIM, F tm.ticks d (tm.baseTime + d)) :
    tm.Carry tm' ∧ tm'.Listed F := by
  have hclock (x : Timer) (hx : x.clock = tm.clock) : x.ticks = tm.ticks ∧ x.baseTime = tm.baseTime := by
    simp only [Timer.clock, Prod.mk.injEq] at hx
    obtain ⟨_, _, h3, h4, h5, _⟩ := hx
    refine ⟨h5, ?_⟩
    unfold Timer.baseTime
    rw [h3, h4]
  induction ho with
  | refl => exact ⟨.refl tm, h⟩
  | tail hr hop ih =>
    rename_i x y
    obtain ⟨hticks, hbase⟩ := hclock x (ops_clock hr)
    cases hop with
    | enqueue hQ hn hd cb =>
      obtain ⟨hc, hl⟩ := ih hok
      refine ⟨hc.trans (register_carry hl.heap hn _ _ _), hl.register hn _ _ _ ?_⟩
      rintro r ⟨⟩
      rw [hticks, hbase]
      exact hF _ hd
    | cyclic hQ hn hd =>
      obtain ⟨hc, hl⟩ := ih hok
      exact ⟨hc.trans (register_carry hl.heap hn _ _ _), hl.register hn _ _ _ (by simp)⟩
    | dequeue hQ =>
      obtain ⟨hok, hp⟩ := Bool.and_eq_true_iff.1 hok
      obtain ⟨hc, hl⟩ := ih hok
      obtain ⟨k, hk⟩ := Option.isSome_iff_exists.1 hp
      obtain ⟨hc', hl'⟩ := hl.dequeue hk
      exact ⟨hc.trans hc', hl'⟩

end

/-- The time of a tick in milliseconds, rounded down. -/
def tickFloor (cfg : Cfg) (n : Nat) : Nat := n * cfg.ticNume.toNat / cfg.ticDeno.toNat

/-- The time of a tick in milliseconds, rounded up. -/
def tickCeil (cfg : Cfg) (n : Nat) : Nat :=
  (n * cfg.ticNume.toNat + (cfg.ticDeno.toNat - 1)) / cfg.ticDeno.toNat

/-- Two ticks and a relative time fit into the range of the event times. -/
def tickFits (cfg : Cfg) : Prop :=
  2 * cfg.ticNume.toNat + cfg.ticDeno.toNat ≤
    2 ^ 31 * cfg.ticDeno.toNat + cfg.ticNume.toNat.gcd cfg.ticDeno.toNat

section
variable {cfg : Cfg} {n m : Nat}

theorem tickFloor_mono (cfg : Cfg) (h : m ≤ n) : tickFloor cfg m ≤ tickFloor cfg n :=
  Nat.div_le_div_right (Nat.mul_le_mul_right _ h)

theorem tickCeil_mono (cfg : Cfg) (h : m ≤ n) : tickCeil cfg m ≤ tickCeil cfg n :=
  Nat.div_le_div_right (Nat.add_le_add_right (Nat.mul_le_mul_right _ h) _)

theorem tickFloor_le_ceil (cfg : Cfg) (n : Nat) : tickFloor cfg n ≤ tickCeil cfg n :=
  Nat.div_le_div_right (Nat.le_add_right ..)

/-- The time of a tick has the denominator `TIC_DENO`, in lowest terms or not. -/
theorem tick_mod_le (cfg : Cfg) (n : Nat) : n * cfg.ticNume.toNat % cfg.ticDeno.toNat +
    cfg.ticNume.toNat.gcd cfg.ticDeno.toNat ≤ cfg.ticDeno.toNat := by
  have hg := Nat.gcd_dvd_right cfg.ticNume.toNat cfg.ticDeno.toNat
  have hlt := Nat.mod_lt (n * cfg.ticNume.toNat) (deno_pos cfg)
  have hm : cfg.ticNume.toNat.gcd cfg.ticDeno.toNat ∣
      n * cfg.ticNume.toNat % cfg.ticDeno.toNat :=
    (Nat.dvd_mod_iff hg).2 ((Nat.gcd_dvd_left ..).mul_left n)
  have hle := Nat.le_of_dvd (Nat.sub_pos_of_lt hlt) (Nat.dvd_sub hg hm)
  omega

/-- While `signal_time` runs, `base_time` is two ticks ahead of `min_time`. -/
theorem tickFits.le (h : tickFits cfg) (hm : n ≤ m + 2) :
    tickCeil cfg n ≤ tickFloor cfg m + 2 ^ 31 := by
  refine (tickCeil_mono cfg hm).trans ?_
  have hd := deno_pos cfg
  have hr := tick_mod_le cfg m
  have hdiv := Nat.div_add_mod (m * cfg.ticNume.toNat) cfg.ticDeno.toNat
  unfold tickFits at h
  unfold tickCeil tickFloor
  rw [← Nat.lt_succ_iff, Nat.div_lt_iff_lt_mul hd, Nat.add_mul m 2]
  have he : (m * cfg.ticNume.toNat / cfg.ticDeno.toNat + 2 ^ 31).succ * cfg.ticDeno.toNat =
      cfg.ticDeno.toNat * (m * cfg.ticNume.toNat / cfg.ticDeno.toNat) +
        2 ^ 31 * cfg.ticDeno.toNat + cfg.ticDeno.toNat := by
    rw [Nat.succ_mul, Nat.add_mul, Nat.mul_comm cfg.ticDeno.toNat]
  rw [he]
  omega

end

section
variable {cfg : Cfg} {k k' : Kernel} {c : Core}

theorem texLoop_sigtim (c : Core) (t : Nat) : (c.texLoop t).sigtim = c.sigtim := by
  unfold Core.texLoop
  simp only
  split <;> rfl

theorem calltex_sigtim (c : Core) (t : Nat) : (c.calltex t).sigtim = c.sigtim := by
  unfold Core.calltex
  simp only
  split <;> rfl

theorem dispatcher_sigtim (c : Core) : c.dispatcher.sigtim = c.sigtim := by
  unfold Core.dispatcher
  simp only
  split
  · rfl
  · split
    · exact texLoop_sigtim ..
    · exact calltex_sigtim ..

theorem texReturn_sigtim (c : Core) (t : Nat) : (c.texReturn t).sigtim = c.sigtim := by
  unfold Core.texReturn
  simp only
  split
  · exact dispatcher_sigtim _
  · exact texLoop_sigtim ..

theorem intExit_sigtim (c : Core) : c.intExit.sigtim = c.sigtim := by
  unfold Core.intExit
  simp only
  split
  · split
    · exact dispatcher_sigtim _
    · split
      · exact dispatcher_sigtim _
      · exact calltex_sigtim ..
  · rfl

theorem Effect.sigtim {r : Res Core} (he : Effect cfg S P R c r) (h : CoreInv cfg noD c) :
    r.st.sigtim = c.sigtim := by
  cases he with
  | task hm hb hc => exact (hm.frame h).sigtim
  | int hm hb hc => exact (hm.frame h).sigtim

/-- `signal_time` is entered and left in these steps only. -/
theorem step_sigtim (h : RunInv cfg k.core) (hs : Step cfg k e k') :
    match e with
    | .sigBegin => k.core.sigtim = none ∧ k'.core.sigtim ≠ none
    | .sigEnd => k.core.sigtim ≠ none ∧ k'.core.sigtim = none
    | _ => k'.core.sigtim = k.core.sigtim := by
  unfold Step Kernel.step at hs
  cases e with
  | call call =>
    simp only at hs ⊢
    split at hs
    · rename_i hg
      cases hs
      have he := (effect_exec (h.callPre hg.1) call).sigtim h.inv
      rw [settle_core]
      split
      · rw [dispatcher_sigtim]
        exact he
      · exact he
    · cases hs
  | writeMsg pkMsg msg =>
    cases hs
    rfl
  | texReturn =>
    simp only at hs ⊢
    split at hs
    · cases hs
    · split at hs
      · cases hs
      · cases hs
        exact texReturn_sigtim ..
  | intEnter =>
    simp only at hs ⊢
    split at hs
    · cases hs
    · cases hs
      rfl
  | intExit =>
    simp only at hs ⊢
    split at hs
    · cases hs
    · cases hs
      exact intExit_sigtim _
  | sigBegin =>
    simp only at hs ⊢
    split at hs
    · rename_i hg
      cases hs
      exact ⟨hg.2.2, nofun⟩
    · cases hs
  | sigFire =>
    simp only at hs ⊢
    split at hs
    · rename_i hg
      cases hs
      obtain ⟨b, c2, hf, he, _⟩ := (h.inv.fire hg.2).frame (P := fun _ => False) h.inv
      change k.core.sigFire.sigtim = _
      rw [he]
      exact hf.sigtim
    · cases hs
  | sigEnd =>
    simp only at hs ⊢
    split at hs
    · rename_i hg
      cases hs
      refine ⟨?_, rfl⟩
      rw [hg.1]
      exact nofun
    · cases hs

/-- The tick of `min_time`: `signal_time` moves it at its end. -/
def Kernel.minTick (k : Kernel) : Nat :=
  if k.core.sigtim = none then k.core.tm.ticks else k.core.tm.ticks - 1

/-- The time of an event before its reduction. -/
def Kernel.evttim (cfg : Cfg) (k : Kernel) (t : EVTTIM) : Nat :=
  tickFloor cfg k.minTick + (t - k.core.tm.minTime).toNat

/-- The registered events, where the times are not reduced. -/
structure Kernel.Times (cfg : Cfg) (k : Kernel) : Prop where
  started : k.core.sigtim ≠ none → 0 < k.core.tm.ticks
  minTime : k.core.tm.minTime = BitVec.ofNat 32 (tickFloor cfg k.minTick)
  listed : k.core.tm.Listed fun n d t => d ≤ TMAX_RELTIM ∧ n ≤ k.core.tm.ticks ∧
    k.evttim cfg t = tickCeil cfg (n + 1) + d.toNat

/-- The events that stay registered keep their numbers and their times. -/
structure Kernel.Kept (cfg : Cfg) (k k' : Kernel) : Prop where
  ticks : k.core.tm.ticks ≤ k'.core.tm.ticks
  serials : k.core.tm.serials ≤ k'.core.tm.serials
  reg : ∀ p, (k'.core.tm.reg p = k.core.tm.reg p ∧
      ∀ t, k'.core.tm.heap.lookup p = some t →
        k.core.tm.heap.lookup p = some t ∧ k'.evttim cfg t = k.evttim cfg t) ∨
    k.core.tm.serials ≤ (k'.core.tm.reg p).serial

theorem Kernel.Kept.trans {k'' : Kernel} (h : k.Kept cfg k') (h' : k'.Kept cfg k'') :
    k.Kept cfg k'' := by
  refine ⟨h.ticks.trans h'.ticks, h.serials.trans h'.serials, ?_⟩
  intro p
  rcases h'.reg p with ⟨he', ht'⟩ | hs'
  · rcases h.reg p with ⟨he, ht⟩ | hs
    · left
      refine ⟨he'.trans he, ?_⟩
      intro t hl
      obtain ⟨hl', hv'⟩ := ht' t hl
      obtain ⟨hl, hv⟩ := ht t hl'
      exact ⟨hl, hv'.trans hv⟩
    · rw [he']
      exact .inr hs
  · exact .inr (h.serials.trans hs')

/-- The time of the tick and the time of the handler's `signal_time` are exact. -/
theorem Reachable.exact (h : Reachable cfg k) (hok : ticOk cfg.ticNume cfg.ticDeno) :
    ∃ next, k.core.tm.Exact cfg.ticNume cfg.ticDeno k.core.tm.ticks next := by
  obtain ⟨es, hr⟩ := h
  have hx := run_exact hr hok
  rw [hx.ticks]
  exact ⟨_, hx⟩

theorem Reachable.times_base (h : Reachable cfg k) (hok : ticOk cfg.ticNume cfg.ticDeno) :
    k.core.tm.currentTime = BitVec.ofNat 32 (tickFloor cfg k.core.tm.ticks) ∧
    k.core.tm.nextTime = BitVec.ofNat 32 (tickFloor cfg (k.core.tm.ticks + 1)) ∧
    k.core.tm.baseTime = BitVec.ofNat 32 (tickCeil cfg (k.core.tm.ticks + 1)) := by
  obtain ⟨next, hx⟩ := h.exact hok
  refine ⟨hx.current, ?_, hx.baseTime⟩
  rw [hx.next_eq, hx.next_div]
  rfl

theorem Kernel.Times.minTick_le (h : k.Times cfg) :
    k.minTick ≤ k.core.tm.ticks ∧ k.core.tm.ticks ≤ k.minTick + 1 := by
  have hs := h.started
  unfold Kernel.minTick
  split
  · omega
  · rename_i hn
    have hp := hs hn
    omega

/-- The distance of a time from `min_time`. -/
theorem Kernel.Times.sub_minTime (h : k.Times cfg) (x : Nat)
    (hx : tickFloor cfg k.minTick ≤ x) (hlt : x < tickFloor cfg k.minTick + 2 ^ 32) :
    (BitVec.ofNat 32 x - k.core.tm.minTime).toNat = x - tickFloor cfg k.minTick := by
  rw [h.minTime]
  obtain ⟨d, rfl⟩ := Nat.exists_eq_add_of_le hx
  rw [Nat.add_comm, BitVec.ofNat_add, BitVec.add_sub_cancel, BitVec.toNat_ofNat,
    Nat.mod_eq_of_lt (by omega), Nat.add_sub_cancel]

theorem Kernel.Times.evttim_ofNat (h : k.Times cfg) (x : Nat)
    (hx : tickFloor cfg k.minTick ≤ x) (hlt : x < tickFloor cfg k.minTick + 2 ^ 32) :
    k.evttim cfg (BitVec.ofNat 32 x) = x := by
  unfold Kernel.evttim
  rw [h.sub_minTime x hx hlt]
  omega

/-- A relative time from `base_time` on. -/
theorem Kernel.Times.evttim_base (h : k.Times cfg) (hr : Reachable cfg k)
    (hok : ticOk cfg.ticNume cfg.ticDeno) (hfit : tickFits cfg) (hd : d ≤ TMAX_RELTIM) :
    k.evttim cfg (k.core.tm.baseTime + d) = tickCeil cfg (k.core.tm.ticks + 1) + d.toNat := by
  obtain ⟨hm, hm'⟩ := h.minTick_le
  have hle := tickFloor_mono cfg (m := k.minTick) (n := k.core.tm.ticks + 1) (by omega)
  have hceil := tickFloor_le_ceil cfg (k.core.tm.ticks + 1)
  have hlt := hfit.le (n := k.core.tm.ticks + 1) (m := k.minTick) (by omega)
  have hd : d.toNat ≤ 2 ^ 31 - 1 := BitVec.le_def.1 hd
  have he : k.core.tm.baseTime + d =
      BitVec.ofNat 32 (tickCeil cfg (k.core.tm.ticks + 1) + d.toNat) := by
    rw [(hr.times_base hok).2.2, BitVec.ofNat_add, BitVec.ofNat_toNat, BitVec.setWidth_eq]
  rw [he]
  apply h.evttim_ofNat
  · omega
  · omega

/-- A step outside of `signal_time`'s beginning and end. -/
theorem Kernel.Times.quiet (h : k.Times cfg) (hs : k'.core.sigtim = k.core.sigtim)
    (hm : k'.core.tm.minTime = k.core.tm.minTime) (ht : k'.core.tm.ticks = k.core.tm.ticks)
    (hl : k.core.tm.Carry k'.core.tm ∧ k'.core.tm.Listed fun n d t => d ≤ TMAX_RELTIM ∧
      n ≤ k.core.tm.ticks ∧ k.evttim cfg t = tickCeil cfg (n + 1) + d.toNat) :
    k'.Times cfg ∧ k.Kept cfg k' := by
  have hmin : k'.minTick = k.minTick := by
    unfold Kernel.minTick
    rw [hs, ht]
  have hev (t : EVTTIM) : k'.evttim cfg t = k.evttim cfg t := by
    unfold Kernel.evttim
    rw [hmin, hm]
  constructor
  · refine ⟨?_, ?_, ?_⟩
    · rw [hs, ht]
      exact h.started
    · rw [hm, hmin]
      exact h.minTime
    · simp only [hev, ht]
      exact hl.2
  · refine ⟨Nat.le_of_eq ht.symm, hl.1.serials, ?_⟩
    intro p
    refine (hl.1.reg p).imp_left ?_
    rintro ⟨he, hlk⟩
    exact ⟨he, fun t hlt => ⟨hlk t hlt, hev t⟩⟩

/-- The clock moves on, and the heap stays. -/
theorem Kernel.Times.tick (h : k.Times cfg) (hs : k'.core.sigtim ≠ none → 0 < k'.core.tm.ticks)
    (hm : k'.core.tm.minTime = BitVec.ofNat 32 (tickFloor cfg k'.minTick))
    (ht : k.core.tm.ticks ≤ k'.core.tm.ticks) (hh : k'.core.tm.heap = k.core.tm.heap)
    (hr : k'.core.tm.reg = k.core.tm.reg) (hn : k'.core.tm.serials = k.core.tm.serials)
    (hi : TmevtInv k'.core.tm.minTime k.core.tm.heap k.core.tm.heap.lookup)
    (hev : ∀ p t, k.core.tm.heap.lookup p = some t → k'.evttim cfg t = k.evttim cfg t) :
    k'.Times cfg ∧ k.Kept cfg k' := by
  constructor
  · refine ⟨hs, hm, ?_, ?_, ?_⟩
    · rw [hh]
      exact hi
    · unfold Timer.Fresh
      rw [hh, hr, hn]
      exact h.listed.fresh
    · intro p t d hl hd
      rw [hh] at hl
      rw [hr] at hd ⊢
      obtain ⟨h1, h2, h3⟩ := h.listed.regs p t d hl hd
      exact ⟨h1, h2.trans ht, (hev p t hl).trans h3⟩
  · refine ⟨ht, Nat.le_of_eq hn.symm, ?_⟩
    intro p
    left
    rw [hr, hh]
    exact ⟨rfl, fun t hl => ⟨hl, hev p t hl⟩⟩

/-- The next tick begins. -/
theorem Kernel.Times.sigBegin (h : k.Times cfg) (hs : k.core.sigtim = none)
    (hs' : k'.core.sigtim ≠ none)
    (ht : k'.core.tm = k.core.tm.sigBegin cfg.ticNume cfg.ticDeno) :
    k'.Times cfg ∧ k.Kept cfg k' := by
  have hticks : k'.core.tm.ticks = k.core.tm.ticks + 1 := by
    rw [ht]
    rfl
  have hmin : k'.minTick = k.minTick := by
    unfold Kernel.minTick
    rw [if_neg hs', if_pos hs, hticks]
    rfl
  have hm : k'.core.tm.minTime = k.core.tm.minTime := by
    rw [ht]
    rfl
  apply h.tick
  · intro _
    omega
  · rw [hm, hmin]
    exact h.minTime
  · omega
  · rw [ht]
    rfl
  · rw [ht]
    rfl
  · rw [ht]
    rfl
  · rw [hm]
    exact h.listed.heap
  · intro p t _
    unfold Kernel.evttim
    rw [hmin, hm]

/-- The times that are left at the end of `signal_time` are behind the tick. -/
theorem Kernel.Times.sigEnd_sub (h : k.Times cfg) (hd : k.core.tm.due = false)
    (hl : k.core.tm.heap.lookup p = some t) :
    (k.core.tm.currentTime - k.core.tm.minTime).toNat ≤ (t - k.core.tm.minTime).toNat := by
  obtain ⟨hlast, hfirst⟩ := h.listed.heap.first hl
  unfold Timer.due at hd
  rw [decide_eq_true hlast, Bool.true_and, Bool.eq_false_iff, ne_eq, evttimLe_iff] at hd
  rw [evttimLe_iff] at hfirst
  omega

theorem Kernel.Times.sigEnd (h : k.Times cfg) (hr : Reachable cfg k)
    (hok : ticOk cfg.ticNume cfg.ticDeno) (hfit : tickFits cfg) (hs : k.core.sigtim ≠ none)
    (hs' : k'.core.sigtim = none) (hd : k.core.tm.due = false)
    (ht : k'.core.tm = k.core.tm.sigEnd) : k'.Times cfg ∧ k.Kept cfg k' := by
  have hticks : k'.core.tm.ticks = k.core.tm.ticks := by
    rw [ht]
    rfl
  have hpos := h.started hs
  have hcur := (hr.times_base hok).1
  have hmin : k.minTick = k.core.tm.ticks - 1 := if_neg hs
  have hmin' : k'.minTick = k.core.tm.ticks := (if_pos hs').trans hticks
  have hm : k'.core.tm.minTime = k.core.tm.currentTime := by
    rw [ht]
    rfl
  apply h.tick
  · intro hn
    exact absurd hs' hn
  · rw [hm, hmin', hcur]
  · omega
  · rw [ht]
    rfl
  · rw [ht]
    rfl
  · rw [ht]
    rfl
  · rw [hm]
    exact (hr.runInv.inv.timer.sigEnd hd).heap
  · intro p t hl
    have hsub := h.sigEnd_sub hd hl
    have hle := tickFloor_mono cfg (m := k.minTick) (n := k.core.tm.ticks) (by omega)
    have hlt := hfit.le (n := k.core.tm.ticks) (m := k.minTick) (by omega)
    have hceil := tickFloor_le_ceil cfg k.core.tm.ticks
    have hdist := h.sub_minTime (tickFloor cfg k.core.tm.ticks) hle (by omega)
    rw [← hcur] at hdist
    unfold Kernel.evttim
    rw [hm, hmin', sub_toNat_of_le hsub]
    omega

/-- What a step does to the events. -/
theorem Kernel.Times.step (h : k.Times cfg) (hr : Reachable cfg k)
    (hok : ticOk cfg.ticNume cfg.ticDeno) (hfit : tickFits cfg) (hs : Step cfg k e k') :
    k'.Times cfg ∧ k.Kept cfg k' := by
  have ht := step_timer hr.runInv hr.cycOk hs
  have hc := step_clock hr hs
  have hsig := step_sigtim hr.runInv hs
  have hi' := (hr.step hs).runInv.inv
  have same (htm : k'.core.tm = k.core.tm) (hsig : k'.core.sigtim = k.core.sigtim) :
      k'.Times cfg ∧ k.Kept cfg k' := by
    apply h.quiet hsig
    · rw [htm]
    · rw [htm]
    · rw [htm]
      exact ⟨.refl _, h.listed⟩
  cases e with
  | call call =>
    have hcm : k'.core.tm.minTime = k.core.tm.minTime := congrArg (·.2.1) hc
    have hct : k'.core.tm.ticks = k.core.tm.ticks := congrArg (·.2.2.2.2.1) hc
    apply h.quiet hsig hcm hct
    apply h.listed.ops ht.1 hi'.timer.dequeue
    intro d hd
    exact ⟨hd, Nat.le_refl _, h.evttim_base hr hok hfit hd⟩
  | sigBegin => exact h.sigBegin hsig.1 hsig.2 ht.1
  | sigEnd => exact h.sigEnd hr hok hfit hsig.1 hsig.2 ht.1 ht.2.1
  | sigFire =>
    obtain ⟨hdue, ht⟩ := ht
    have hpop := h.listed.sigPop (due_pos hdue)
    rcases ht with ⟨i, hi, he⟩ | ⟨ht, -⟩
    · have hn : k.core.tm.sigPop.heap.lookup (.cyc i) = none := by
        rw [← hi]
        exact (congrFun (h.listed.heap.deleteTop (due_pos hdue)).lookup_eq _).trans
          (Function.update_self ..)
      have htm : k'.core.tm = k.core.tm.sigPop.register (.cyc i)
          ((k.core.cyccb i).evttim + (k.core.cyccb i).cyctim) .callCychdr none := by
        rw [he]
        rfl
      apply h.quiet hsig
      · rw [htm]
        rfl
      · rw [htm]
        rfl
      · rw [htm]
        obtain ⟨hcarry, hlist⟩ := hpop
        exact ⟨hcarry.trans (Timer.register_carry hlist.heap hn _ _ _),
          hlist.register hn _ _ _ nofun⟩
    · apply h.quiet hsig
      · rw [ht]
        rfl
      · rw [ht]
        rfl
      · rw [ht]
        exact hpop
  | writeMsg | texReturn | intEnter | intExit => exact same ht.1 hsig

theorem Kernel.Kept.refl (cfg : Cfg) (k : Kernel) : k.Kept cfg k :=
  ⟨Nat.le_refl _, Nat.le_refl _, fun _ => .inl ⟨rfl, fun _ h => ⟨h, rfl⟩⟩⟩

/-- One step of the loop of `initialize_cyclic`. -/
theorem initializeCyc_listed (h : BootInv cfg c) (hs : (c.cyccb i).cycsta = false)
    (hl : c.tm.Listed F) : (c.initializeCyc i).tm.Listed F := by
  unfold Core.initializeCyc
  split
  · apply hl.register (h.inv.timer.lookup_none (p := .cyc i) hs)
    exact nofun
  · exact hl

theorem foldCyc_listed {l : List Nat} (h : BootInv cfg c) (hn : l.Nodup)
    (hi : ∀ i ∈ l, i < cfg.cyc.tmaxS ∧ (c.cyccb i).cycsta = false) (hl : c.tm.Listed F) :
    (l.foldl Core.initializeCyc c).tm.Listed F := by
  induction l generalizing c with
  | nil => exact hl
  | cons i l ih =>
    obtain ⟨hni, hn⟩ := List.nodup_cons.1 hn
    obtain ⟨hlt, hs⟩ := hi i List.mem_cons_self
    apply ih (h.initializeCyc hlt hs) hn
    · intro j hj
      have hji : j ≠ i := by
        rintro rfl
        exact hni hj
      rw [initializeCyc_of_ne c hji]
      exact hi j (List.mem_cons_of_mem i hj)
    · exact initializeCyc_listed h hs hl

theorem foldTsk_tm (l : List Nat) (c : Core) : (l.foldl Core.initializeTsk c).tm = c.tm := by
  induction l generalizing c with
  | nil => rfl
  | cons t l ih =>
    rw [List.foldl_cons, ih]
    unfold Core.initializeTsk
    simp only
    split <;> rfl

theorem boot_listed (cfg : Cfg) (F : Nat → RELTIM → EVTTIM → Prop) :
    (boot cfg).core.tm.Listed F := by
  have hzero := (CoreInv.zero cfg).timer
  have h1 : BootInv cfg (cfg.torder.foldl Core.initializeTsk (.zero cfg)) :=
    (BootInv.zero cfg).foldTsk cfg.torder_nodup fun t ht => ⟨(cfg.torder_mem t).1 ht, rfl⟩
  have hnone (p : TmevtbPtr) : (Core.zero cfg).tm.heap.lookup p = none := by
    apply hzero.lookup_none
    cases p <;> rfl
  rw [show (boot cfg).core.tm = (Core.initializeAll cfg).tm from (dispatcher_same _).1]
  apply foldCyc_listed h1 List.nodup_range
  · intro i hi
    refine ⟨List.mem_range.1 hi, ?_⟩
    rw [foldTsk_cyccb]
    rfl
  · rw [foldTsk_tm]
    refine ⟨hzero.heap, ?_, ?_⟩
    · intro p t hl
      cases (hnone p).symm.trans hl
    · intro p t d hl
      cases (hnone p).symm.trans hl

theorem boot_times (cfg : Cfg) : (boot cfg).Times cfg := by
  have hclock := (boot_clock cfg).1
  have hm : (boot cfg).core.tm.minTime = 0 := congrArg (·.2.1) hclock
  have ht : (boot cfg).core.tm.ticks = 0 := congrArg (·.2.2.2.2.1) hclock
  have hsig : (boot cfg).core.sigtim = none := by
    have hcpu : (Core.initializeAll cfg).cpu = (Core.zero cfg).cpu :=
      congrArg (·.1) (BootInv.all cfg).rest
    change (Core.initializeAll cfg).dispatcher.sigtim = none
    rw [dispatcher_sigtim]
    exact congrArg (·.2.2.2.2.2.2.2) hcpu
  refine ⟨?_, ?_, boot_listed cfg _⟩
  · intro hn
    exact absurd hsig hn
  · have hmin : (boot cfg).minTick = 0 := (if_pos hsig).trans ht
    rw [hm, hmin]
    unfold tickFloor
    rw [Nat.zero_mul, Nat.zero_div]
    rfl

theorem Reachable.times (h : Reachable cfg k) (hok : ticOk cfg.ticNume cfg.ticDeno)
    (hfit : tickFits cfg) : k.Times cfg := by
  obtain ⟨es, hr⟩ := h
  have hinv := hr.invariant (I := fun k => Reachable cfg k ∧ k.Times cfg)
    (fun k e k' hk hs => ⟨hk.1.step hs, (hk.2.step hk.1 hok hfit hs).1⟩)
    ⟨boot_reachable cfg, boot_times cfg⟩
  exact hinv.2

/-- What a run does to the events. -/
theorem run_kept (h : Reachable cfg k) (hr : Run cfg k es k')
    (hok : ticOk cfg.ticNume cfg.ticDeno) (hfit : tickFits cfg) : k.Kept cfg k' := by
  induction hr with
  | nil => exact .refl cfg k
  | snoc hr hs ih =>
    obtain ⟨es, hb⟩ := h
    have hm : Reachable cfg _ := ⟨_, hb.trans hr⟩
    exact ih.trans ((hm.times hok hfit).step hm hok hfit hs).2

theorem baseTime_sub (tm : Timer) (h : (tm.nextTime - tm.minTime).toNat + 1 < 2 ^ 32) :
    (tm.nextTime - tm.minTime).toNat ≤ (tm.baseTime - tm.minTime).toNat ∧
      (tm.baseTime - tm.minTime).toNat ≤ (tm.nextTime - tm.minTime).toNat + 1 := by
  unfold Timer.baseTime
  split
  · have he : tm.nextTime + 1 - tm.minTime = tm.nextTime - tm.minTime + 1 := add_sub_right_comm ..
    rw [he, BitVec.toNat_add_of_lt h]
    exact ⟨Nat.le_add_right .., Nat.le_refl _⟩
  · rw [show tm.nextTime + 0 = tm.nextTime from BitVec.add_zero _]
    exact ⟨Nat.le_refl _, Nat.le_succ _⟩

/-- The difference in `tmevt_lefttim` is one of times in order, whatever the clock is. -/
theorem lefttim_no_underflow (tm : Timer) (hl : tm.heap.lookup p = some t) :
    tm.lefttim p = 0 ∨ (tm.baseTime - tm.minTime).toNat ≤ (t - tm.minTime).toNat ∧
      (tm.lefttim p).toNat =
        (t - tm.minTime).toNat - (tm.baseTime - tm.minTime).toNat := by
  have hnode := (lookup_eq_some.1 hl).2.2
  have hlt' := (t - tm.minTime).isLt
  unfold Timer.lefttim
  simp only [hnode]
  split
  · exact .inl rfl
  · rename_i hlt
    right
    rw [evttimLe_iff] at hlt
    have hb := (baseTime_sub tm (by omega)).2
    have hle : (tm.baseTime - tm.minTime).toNat ≤ (t - tm.minTime).toNat := by omega
    exact ⟨hle, sub_toNat_of_le hle⟩

/-- The time that is left counts from `base_time` on. -/
theorem lefttim_toNat (tm : Timer) (hl : tm.heap.lookup p = some t)
    (hn : (tm.nextTime - tm.minTime).toNat + 1 < 2 ^ 32) : (tm.lefttim p).toNat =
      (t - tm.minTime).toNat - (tm.baseTime - tm.minTime).toNat := by
  have hnode := (lookup_eq_some.1 hl).2.2
  obtain ⟨hb, hb'⟩ := baseTime_sub tm hn
  unfold Timer.lefttim
  simp only [hnode]
  split
  · rename_i hle
    rw [evttimLe_iff] at hle
    change 0 = _
    omega
  · rename_i hle
    rw [evttimLe_iff] at hle
    apply sub_toNat_of_le
    omega

theorem Kernel.Times.base (h : k.Times cfg) (hr : Reachable cfg k)
    (hok : ticOk cfg.ticNume cfg.ticDeno) (hfit : tickFits cfg) :
    (k.core.tm.nextTime - k.core.tm.minTime).toNat + 1 < 2 ^ 32 ∧
    tickFloor cfg k.minTick + (k.core.tm.baseTime - k.core.tm.minTime).toNat =
      tickCeil cfg (k.core.tm.ticks + 1) := by
  obtain ⟨-, hnext, hbase⟩ := hr.times_base hok
  obtain ⟨hm, hm'⟩ := h.minTick_le
  have hle := tickFloor_mono cfg (m := k.minTick) (n := k.core.tm.ticks + 1) (by omega)
  have hceil := tickFloor_le_ceil cfg (k.core.tm.ticks + 1)
  have hlt := hfit.le (n := k.core.tm.ticks + 1) (m := k.minTick) (by omega)
  have hn := h.sub_minTime (tickFloor cfg (k.core.tm.ticks + 1)) hle (by omega)
  have hb := h.sub_minTime (tickCeil cfg (k.core.tm.ticks + 1)) (by omega) (by omega)
  rw [hnext, hbase, hn, hb]
  omega

theorem Kernel.Times.lefttim (h : k.Times cfg) (hr : Reachable cfg k)
    (hok : ticOk cfg.ticNume cfg.ticDeno) (hfit : tickFits cfg)
    (hl : k.core.tm.heap.lookup p = some t) : (k.core.tm.lefttim p).toNat =
      k.evttim cfg t - tickCeil cfg (k.core.tm.ticks + 1) := by
  obtain ⟨hn, hb⟩ := h.base hr hok hfit
  rw [lefttim_toNat _ hl hn, ← hb]
  unfold Kernel.evttim
  omega

/-- The time that is left to an event that has just been registered. -/
theorem Kernel.Times.registered (h : k.Times cfg) (hr : Reachable cfg k)
    (hok : ticOk cfg.ticNume cfg.ticDeno) (hfit : tickFits cfg)
    (hn : k.core.tm.heap.lookup p = none) (hd : d ≤ TMAX_RELTIM) (cb : CBack)
    (r : Option RELTIM) :
    (k.core.tm.register p (k.core.tm.baseTime + d) cb r).lefttim p = d := by
  obtain ⟨hlt, hb⟩ := h.base hr hok hfit
  have hev := h.evttim_base hr hok hfit hd
  have hl : (k.core.tm.register p (k.core.tm.baseTime + d) cb r).heap.lookup p =
      some (k.core.tm.baseTime + d) := by
    rw [Timer.register_lookup h.listed.heap hn, Function.update_self]
  apply BitVec.eq_of_toNat_eq
  rw [lefttim_toNat _ hl hlt]
  unfold Kernel.evttim at hev
  change (k.core.tm.baseTime + d - k.core.tm.minTime).toNat -
    (k.core.tm.baseTime - k.core.tm.minTime).toNat = d.toNat
  omega

/-- An event that is still registered under its number has kept its time. -/
theorem Kernel.Times.same (h : k.Times cfg) (hk : k.Kept cfg k')
    (hl : k.core.tm.heap.lookup p = some t) (hl' : k'.core.tm.heap.lookup p = some t')
    (hs : (k'.core.tm.reg p).serial = (k.core.tm.reg p).serial) :
    t' = t ∧ k'.evttim cfg t = k.evttim cfg t := by
  rcases hk.reg p with ⟨-, ht⟩ | hn
  · obtain ⟨he, hv⟩ := ht t' hl'
    rw [hl] at he
    cases he
    exact ⟨rfl, hv⟩
  · have hf := h.listed.fresh p t hl
    omega

/-- An event that is due has come before the tick. -/
theorem Kernel.Times.due (h : k.Times cfg) (hr : Reachable cfg k)
    (hok : ticOk cfg.ticNume cfg.ticDeno) (hfit : tickFits cfg) (hd : k.core.tm.due = true) :
    ∃ t, k.core.tm.heap.lookup (k.core.tm.heap.node 1).id = some t ∧
      k.evttim cfg t ≤ tickFloor cfg k.core.tm.ticks := by
  have hcur := (hr.times_base hok).1
  obtain ⟨hm, hm'⟩ := h.minTick_le
  have hle := tickFloor_mono cfg hm
  have hlt := hfit.le (n := k.core.tm.ticks) (m := k.minTick) (by omega)
  have hceil := tickFloor_le_ceil cfg k.core.tm.ticks
  have hdist := h.sub_minTime (tickFloor cfg k.core.tm.ticks) hle (by omega)
  rw [← hcur] at hdist
  refine ⟨_, (h.listed.heap.holds.at_pos 1 (Nat.le_refl 1) (due_pos hd)).2, ?_⟩
  unfold Timer.due at hd
  obtain ⟨-, hd⟩ := Bool.and_eq_true_iff.1 hd
  rw [evttimLe_iff] at hd
  unfold Kernel.evttim
  omega

/-- `tmevt_lefttim` in every state that a system can reach: the subtraction never underflows, and where
two ticks and a relative time fit into the range of the event times, an event has its relative time left
until the next tick begins, then never more than before, and nothing where the next `signal_time`
fires it. -/
theorem reachable_lefttim (hr : Reachable cfg k) :
    (∀ p t, k.core.tm.heap.lookup p = some t → k.core.tm.lefttim p = 0 ∨
      (k.core.tm.baseTime - k.core.tm.minTime).toNat ≤ (t - k.core.tm.minTime).toNat ∧
        (k.core.tm.lefttim p).toNat =
          (t - k.core.tm.minTime).toNat - (k.core.tm.baseTime - k.core.tm.minTime).toNat) ∧
    (ticOk cfg.ticNume cfg.ticDeno → tickFits cfg →
      (∀ p t d, k.core.tm.heap.lookup p = some t → (k.core.tm.reg p).reltim = some d →
        d ≤ TMAX_RELTIM ∧ k.core.tm.lefttim p ≤ d ∧
          ((k.core.tm.reg p).ticks = k.core.tm.ticks → k.core.tm.lefttim p = d)) ∧
      (∀ p d cb, k.core.tm.heap.lookup p = none → d ≤ TMAX_RELTIM →
        (k.core.tm.tmevtbEnqueue p d cb).lefttim p = d ∧
        (k.core.tm.tmevtbEnqueueEvttim p (k.core.tm.baseTime + d) cb).lefttim p = d) ∧
      (∀ es k', Run cfg k es k' → ∀ p t t', k.core.tm.heap.lookup p = some t →
        k'.core.tm.heap.lookup p = some t' →
        (k'.core.tm.reg p).serial = (k.core.tm.reg p).serial →
        k'.core.tm.lefttim p ≤ k.core.tm.lefttim p) ∧
      (∀ es k' k'', Run cfg k es k' → Step cfg k' .sigFire k'' → ∀ p t,
        k.core.tm.heap.lookup p = some t → (k'.core.tm.heap.node 1).id = p →
        (k'.core.tm.reg p).serial = (k.core.tm.reg p).serial →
        k'.core.tm.ticks ≤ k.core.tm.ticks + 1 → k.core.tm.lefttim p = 0)) := by
  refine ⟨fun p t hl => lefttim_no_underflow _ hl, fun hok hfit => ?_⟩
  have ht := hr.times hok hfit
  have hreach {es k'} (h : Run cfg k es k') : Reachable cfg k' := by
    obtain ⟨es, hb⟩ := hr
    exact ⟨_, hb.trans h⟩
  refine ⟨?_, ?_, ?_, ?_⟩
  · intro p t d hl hd
    obtain ⟨hmax, hn, hev⟩ := ht.listed.regs p t d hl hd
    have hleft := ht.lefttim hr hok hfit hl
    have hmono := tickCeil_mono cfg (Nat.add_le_add_right hn 1)
    refine ⟨hmax, BitVec.le_def.2 (by omega), ?_⟩
    intro he
    rw [he] at hev
    apply BitVec.eq_of_toNat_eq
    omega
  · intro p d cb hn hd
    exact ⟨ht.registered hr hok hfit hn hd cb _, ht.registered hr hok hfit hn hd cb _⟩
  · intro es k' hrun p t t' hl hl' hs
    have hk := run_kept hr hrun hok hfit
    have ht' := (hreach hrun).times hok hfit
    obtain ⟨rfl, hev⟩ := ht.same hk hl hl' hs
    have hleft := ht.lefttim hr hok hfit hl
    have hleft' := ht'.lefttim (hreach hrun) hok hfit hl'
    have hmono := tickCeil_mono cfg (Nat.add_le_add_right hk.ticks 1)
    apply BitVec.le_def.2
    omega
  · intro es k' k'' hrun hs p t hl hp hser hticks
    have hk := run_kept hr hrun hok hfit
    have ht' := (hreach hrun).times hok hfit
    have hdue := (step_timer (hreach hrun).runInv (hreach hrun).cycOk hs).1
    obtain ⟨t', hl', hle⟩ := ht'.due (hreach hrun) hok hfit hdue
    rw [hp] at hl'
    obtain ⟨rfl, hev⟩ := ht.same hk hl hl' hser
    have hleft := ht.lefttim hr hok hfit hl
    have hmono := tickFloor_mono cfg hticks
    have hceil := tickFloor_le_ceil cfg (k.core.tm.ticks + 1)
    apply BitVec.eq_of_toNat_eq
    change _ = 0
    omega

theorem reachable_lefttim_third : ∃ k, Kernel.steps .third [.call (.staAlm 1 5)] = some k ∧
    k.core.tm.heap.lookup (.alm 0) = some 9 ∧ k.core.tm.lefttim (.alm 0) = 5 := by
  have h : ((Kernel.steps .third [.call (.staAlm 1 5)]).any fun k =>
      decide (k.core.tm.heap.lookup (.alm 0) = some 9 ∧
        (k.core.tm.reg (.alm 0)).reltim = some 5 ∧
        (k.core.tm.reg (.alm 0)).ticks = k.core.tm.ticks)) = true := by
    decide +kernel
  obtain ⟨k, hk, h⟩ := (Option.any_eq_true _ _).1 h
  obtain ⟨hl, hr, ht⟩ := of_decide_eq_true h
  have hleft := (reachable_lefttim (reachable_of_steps hk)).2
    (ticOk_of_le (by decide) (by decide)) (by unfold tickFits; decide)
  exact ⟨k, hk, hl, (hleft.1 _ _ _ hl hr).2.2 ht⟩

/-- Nothing is left to an alarm handler that has just been started for 5 milliseconds. -/
theorem lefttim_long : ∃ k, Kernel.steps .long [.call (.staAlm 1 5)] = some k ∧
    (k.core.tm.heap.lookup (.alm 0)).isSome = true ∧
    (k.core.tm.reg (.alm 0)).reltim = some 5 ∧
    (k.core.tm.reg (.alm 0)).ticks = k.core.tm.ticks ∧ k.core.tm.lefttim (.alm 0) ≠ 5 := by
  have h : ((Kernel.steps .long [.call (.staAlm 1 5)]).any fun k =>
      decide ((k.core.tm.heap.lookup (.alm 0)).isSome = true ∧
        (k.core.tm.reg (.alm 0)).reltim = some 5 ∧
        (k.core.tm.reg (.alm 0)).ticks = k.core.tm.ticks ∧
        k.core.tm.lefttim (.alm 0) ≠ 5)) = true := by
    decide +kernel
  obtain ⟨k, hk, h⟩ := (Option.any_eq_true _ _).1 h
  exact ⟨k, hk, of_decide_eq_true h⟩

end

end AspKernel
