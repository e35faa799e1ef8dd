import AspKernel.SerialInv

namespace AspKernel.Serial
set_option autoImplicit true

variable {δ : Type} {D : Sio δ} {ini : SPINIB} {k : Sys δ}

theorem signal_spcb (k : Sys δ) (s : SemId) : (k.signal s).2.spcb = k.spcb := by
  unfold Sys.signal
  split
  · split
    · rfl
    · rfl
  · simp only
    split
    · rfl
    · rfl

/-- Two control blocks that differ at most in `errorflag`. -/
def SPCB.Same (p q : SPCB δ) : Prop := ∃ b, q = { p with errorflag := b }

theorem callback_same (k : Sys δ) (r : SPCB δ × Option SemId) :
    SPCB.Same r.1 (k.callback r).spcb := by
  obtain ⟨p, s⟩ := r
  cases s with
  | none => exact ⟨p.errorflag, rfl⟩
  | some s =>
    simp only [Sys.callback]
    split
    · exact ⟨true, congrArg (fun q : SPCB δ => { q with errorflag := true }) (signal_spcb ..)⟩
    · exact ⟨p.errorflag, signal_spcb ..⟩

/-- What an event other than a character that is received does to the control block. -/
inductive SPCB.Move (D : Sio δ) (ini : SPINIB) (p : SPCB δ) : SPCB δ → Prop
  | same : Same p q → Move D ini p q
  | ioctl (i : BitVec 32) : Move D ini p { p with ioctl := i }
  | wriChr (c : Char) : Move D ini p (p.wriChr D ini c).2
  | reaChr : Move D ini p (p.reaChr D ini).2
  | irdySnd : D.irdy p.siopcb = true → Same (p.irdySnd D ini).1 q → Move D ini p q
  | tick : Move D ini p { p with siopcb := D.tick p.siopcb }

theorem exec_move (k : Sys δ) (t : Nat) (op : Op) (f : op.Out → Code (ER × List Char)) :
    SPCB.Move D ini k.spcb (k.exec D ini t op f).spcb := by
  cases op with
  | openflag => exact .same ⟨_, rfl⟩
  | errorflag => exact .same ⟨_, rfl⟩
  | ioctl => exact .same ⟨_, rfl⟩
  | setErrorflag => exact .same ⟨true, rfl⟩
  | waiSem s =>
    simp only [Sys.exec]
    split
    · exact .same ⟨_, rfl⟩
    · exact .same ⟨_, rfl⟩
  | sigSem s => exact .same ⟨_, signal_spcb (k.hold s t false) s⟩
  | wriChr c => exact .wriChr c
  | reaChr => exact .reaChr

/-- What a step does to the control block. -/
theorem step_move (h : k.step D ini e = some k') :
    (∃ c, e = .irdyRcv c ∧ SPCB.Same (k.spcb.irdyRcv D ini c).1 k'.spcb) ∨
    (∀ c, e ≠ .irdyRcv c) ∧ SPCB.Move D ini k.spcb k'.spcb := by
  cases e with
  | irdyRcv c =>
    cases h
    exact .inl ⟨c, rfl, callback_same ..⟩
  | serialReaDat t len =>
    simp only [Sys.step] at h
    split at h
    · cases h
      exact .inr ⟨by simp, .same ⟨_, rfl⟩⟩
    · cases h
  | serialWriDat t buf =>
    simp only [Sys.step] at h
    split at h
    · cases h
      exact .inr ⟨by simp, .same ⟨_, rfl⟩⟩
    · cases h
  | serialCtlPor i =>
    cases h
    refine .inr ⟨by simp, ?_⟩
    split
    · exact .same ⟨_, rfl⟩
    · exact .ioctl i
  | run t =>
    simp only [Sys.step] at h
    split at h
    · cases h
      exact .inr ⟨by simp, exec_move ..⟩
    · cases h
  | relWai t =>
    simp only [Sys.step] at h
    split at h
    · cases h
      exact .inr ⟨by simp, .same ⟨_, rfl⟩⟩
    · cases h
  | reorder s q =>
    simp only [Sys.step] at h
    split at h
    · cases h
      exact .inr ⟨by simp, .same ⟨_, rfl⟩⟩
    · cases h
  | irdySnd =>
    simp only [Sys.step] at h
    split at h
    · rename_i hi
      cases h
      exact .inr ⟨by simp, .irdySnd hi (callback_same ..)⟩
    · cases h
  | tick =>
    cases h
    exact .inr ⟨by simp, .tick⟩

/-- There is a character to be sent: START or STOP, or one of the send buffer, the output not being
stopped. -/
def SPCB.Pending (p : SPCB δ) : Prop :=
  p.rcvFcChr ≠ NUL ∨ p.sndStopped = false ∧ 0 < p.sndCount

/-- A character that is to be sent has the callback enabled. -/
def SPCB.Eligible (p : SPCB Register) : Prop := p.Pending → p.siopcb.cbr = true

/-- A character that makes the output go on is received while two characters or more are to be sent,
the transmit register is empty and the callback is disabled. -/
def Event.strands (p : SPCB Register) : Event → Bool
  | .irdyRcv c =>
    p.restarts c && decide (2 ≤ p.sndCount) && !p.siopcb.full && !p.siopcb.cbr
  | _ => false

section
variable {p q : SPCB Register}

theorem SPCB.Same.eligible (h : Same p q) : q.Eligible ↔ p.Eligible := by
  obtain ⟨b, rfl⟩ := h
  rfl

/-- The attempt to send a character succeeds where the register is empty, and enables the callback
elsewhere. -/
theorem serialSndChr_register (p : SPCB Register) (c : Char) :
    p.siopcb.full = false ∧
      p.serialSndChr Register.sio c = (true, { p with siopcb := { p.siopcb with full := true } }) ∨
    p.siopcb.full = true ∧
      p.serialSndChr Register.sio c =
        (false, { p with siopcb := { p.siopcb with cbr := true } }) := by
  unfold SPCB.serialSndChr
  cases hf : p.siopcb.full with
  | false =>
    have hs : Register.sio.sndChr p.siopcb c = (true, { p.siopcb with full := true }) :=
      if_neg (Bool.eq_false_iff.1 hf)
    rw [hs]
    exact .inl ⟨rfl, rfl⟩
  | true =>
    have hs : Register.sio.sndChr p.siopcb c = (false, p.siopcb) := if_pos hf
    rw [hs]
    exact .inr ⟨rfl, rfl⟩

theorem wriChr_eligible (c : Char) (h : p.Eligible) :
    (p.wriChr Register.sio ini c).2.Eligible := by
  unfold SPCB.wriChr
  simp only
  split
  · rename_i hc
    rcases serialSndChr_register p c with ⟨-, he⟩ | ⟨-, he⟩
    · rw [he]
      exact fun hp => h (hp.imp_right fun hn => absurd hc.1 (Nat.ne_of_gt hn.2))
    · rw [he]
      exact fun _ => rfl
  · rename_i hc
    exact fun hp => h (hp.imp_right fun hn => ⟨hn.1, Nat.pos_of_ne_zero fun h0 => hc ⟨h0, hn.1⟩⟩)

theorem reaChr_eligible (h : p.Eligible) : (p.reaChr Register.sio ini).2.Eligible := by
  unfold SPCB.reaChr
  simp only
  split
  · rcases serialSndChr_register { p with
      rcvReadPtr := incPtr p.rcvReadPtr ini.rcvBufsz, rcvCount := dec p.rcvCount } FC_START with
      ⟨-, he⟩ | ⟨-, he⟩
    · rw [he]
      exact h
    · rw [he]
      exact fun _ => rfl
  · exact h

theorem irdySnd_eligible (hc : Register.sio.irdy p.siopcb = true) :
    (p.irdySnd Register.sio ini).1.Eligible := by
  have hcbr (c : Char) : (Register.sio.sndChr p.siopcb c).2.cbr = true := by
    change (if p.siopcb.full then (false, p.siopcb)
      else (true, { p.siopcb with full := true })).2.cbr = true
    split
    · exact (Bool.and_eq_true_iff.1 hc).2
    · exact (Bool.and_eq_true_iff.1 hc).2
  unfold SPCB.irdySnd
  split
  · exact fun _ => hcbr _
  · rename_i hf
    split
    · exact fun _ => hcbr _
    · rename_i hs
      exact fun hp => absurd hp (not_or.2 ⟨hf, hs⟩)

theorem SPCB.Move.eligible (hm : Move Register.sio ini p q) (h : p.Eligible) : q.Eligible := by
  cases hm with
  | same hs => exact hs.eligible.2 h
  | ioctl i => exact h
  | wriChr c => exact wriChr_eligible c h
  | reaChr => exact reaChr_eligible h
  | irdySnd hc hs => exact hs.eligible.2 (irdySnd_eligible hc)
  | tick => exact h

theorem strands_of_not_restarts {c : Char} (h : p.restarts c = false) :
    (Event.irdyRcv c).strands p = false := by
  simp only [Event.strands, h, Bool.false_and]

/-- A character that is received leaves the output eligible unless it strands it. -/
theorem irdyRcv_eligible (c : Char) (h : p.Eligible) (hn : p.sndCount < 2 ^ 32) :
    (p.irdyRcv Register.sio ini c).1.Eligible ↔ (Event.irdyRcv c).strands p = false := by
  have keep {q : SPCB Register} (hr : p.restarts c = false) (hq : q.Eligible) :
      q.Eligible ↔ (Event.irdyRcv c).strands p = false :=
    iff_of_true hq (strands_of_not_restarts hr)
  unfold SPCB.irdyRcv
  split
  · rename_i hc
    refine keep ?_ fun hp => h (hp.imp_right fun hn => absurd hn.1 Bool.noConfusion)
    unfold SPCB.restarts
    rw [hc.1, hc.2, beq_self_eq_true]
    rfl
  rename_i hstop
  split
  · rename_i hc
    have hr : p.restarts c = true := by
      unfold SPCB.restarts
      rw [hc.1]
      rcases hc.2 with rfl | ha
      · rw [show (FC_START == FC_STOP) = false from rfl, Bool.and_false]
        rfl
      · rw [ha, Bool.or_true]
        simp only [Bool.and_true, Bool.not_eq_true', Bool.and_eq_false_iff]
        by_contra hn
        simp only [not_or, Bool.not_eq_false, beq_iff_eq] at hn
        exact hstop hn
    unfold Event.strands
    simp only [hr, Bool.true_and]
    split
    · rename_i h0
      rcases serialSndChr_register { p with sndStopped := false } (p.sndBuffer p.sndReadPtr) with
        ⟨hf, he⟩ | ⟨hf, he⟩
      · have hdec : dec p.sndCount = p.sndCount - 1 := by
          unfold dec
          omega
        rw [he]
        change (p.rcvFcChr ≠ NUL ∨ false = false ∧ 0 < dec p.sndCount → p.siopcb.cbr = true) ↔ _
        rw [hdec, show p.siopcb.full = false from hf]
        cases hcb : p.siopcb.cbr with
        | true => simp
        | false =>
          have hfc : ¬ p.rcvFcChr ≠ NUL := fun hfc =>
            Bool.false_ne_true (hcb.symm.trans (h (.inl hfc)))
          have h2 : 0 < p.sndCount - 1 ↔ 2 ≤ p.sndCount := by omega
          simp only [hfc, h2, false_or, true_and, Bool.false_eq_true, imp_false, Bool.not_false,
            Bool.and_true, decide_eq_false_iff_not]
      · rw [he]
        refine iff_of_true (fun _ => rfl) ?_
        rw [show p.siopcb.full = true from hf]
        simp
    · rename_i h0
      refine iff_of_true (fun hp => h (hp.imp_right fun hn => absurd hn.2 h0)) ?_
      rw [decide_eq_false (by omega)]
      rfl
  rename_i hres
  have hr : p.restarts c = false := by
    by_contra hn
    simp only [SPCB.restarts, Bool.not_eq_false, Bool.and_eq_true, Bool.or_eq_true,
      beq_iff_eq] at hn
    exact hres ⟨hn.1.2, hn.2⟩
  split
  · exact keep hr h
  split
  · exact keep hr h
  · refine keep hr ?_
    simp only
    split
    · rcases serialSndChr_register { p with
        rcvBuffer := Function.update p.rcvBuffer p.rcvWritePtr c
        rcvWritePtr := incPtr p.rcvWritePtr ini.rcvBufsz
        rcvCount := inc p.rcvCount } FC_STOP with ⟨-, he⟩ | ⟨-, he⟩
      · rw [he]
        exact h
      · rw [he]
        exact fun _ => rfl
    · exact h

end

theorem inc_lt (n : Nat) : inc n < 2 ^ 32 := Nat.mod_lt _ (by decide)

theorem dec_lt (n : Nat) : dec n < 2 ^ 32 := Nat.mod_lt _ (by decide)

theorem SPCB.Same.sndCount {p q : SPCB δ} (h : Same p q) : q.sndCount = p.sndCount := by
  obtain ⟨b, rfl⟩ := h
  rfl

theorem serialSndChr_sndCount (D : Sio δ) (p : SPCB δ) (c : Char) :
    (p.serialSndChr D c).2.sndCount = p.sndCount := by
  unfold SPCB.serialSndChr
  simp only
  split
  · rfl
  · rfl

/-- `snd_count` is a number of 32 bits. -/
theorem SPCB.Move.sndCount_lt {p q : SPCB δ} (hm : Move D ini p q) (h : p.sndCount < 2 ^ 32) :
    q.sndCount < 2 ^ 32 := by
  cases hm with
  | same hs => rwa [hs.sndCount]
  | ioctl i => exact h
  | wriChr c =>
    obtain ⟨b, d, hd⟩ := serialSndChr_eq D p c
    unfold SPCB.wriChr
    simp only [hd]
    split
    · cases b with
      | true => exact h
      | false => exact inc_lt _
    · exact inc_lt _
  | reaChr =>
    unfold SPCB.reaChr
    simp only
    split
    · exact (serialSndChr_sndCount ..).trans_lt h
    · exact h
  | irdySnd hc hs =>
    rw [hs.sndCount]
    unfold SPCB.irdySnd
    split
    · exact h
    · split
      · exact dec_lt _
      · exact h
  | tick => exact h

theorem irdyRcv_sndCount_lt {p : SPCB δ} (c : Char) (h : p.sndCount < 2 ^ 32) :
    (p.irdyRcv D ini c).1.sndCount < 2 ^ 32 := by
  unfold SPCB.irdyRcv
  split
  · exact h
  split
  · simp only
    split
    · split
      · exact dec_lt _
      · rwa [serialSndChr_sndCount]
    · exact h
  split
  · exact h
  split
  · exact h
  · simp only
    split
    · exact (serialSndChr_sndCount ..).trans_lt h
    · exact h

theorem step_sndCount_lt {k k' : Sys δ} (he : k.step D ini e = some k')
    (h : k.spcb.sndCount < 2 ^ 32) : k'.spcb.sndCount < 2 ^ 32 := by
  rcases step_move he with ⟨c, -, hs⟩ | ⟨-, hm⟩
  · rw [hs.sndCount]
    exact irdyRcv_sndCount_lt c h
  · exact hm.sndCount_lt h

section
variable {k k' : Sys Register}

theorem step_eligible (he : k.step Register.sio ini e = some k') (hn : k.spcb.sndCount < 2 ^ 32)
    (h : k.spcb.Eligible) : k'.spcb.Eligible ↔ e.strands k.spcb = false := by
  rcases step_move he with ⟨c, rfl, hs⟩ | ⟨hc, hm⟩
  · exact hs.eligible.trans (irdyRcv_eligible c h hn)
  · refine iff_of_true (hm.eligible h) ?_
    cases e with
    | irdyRcv c => exact absurd rfl (hc c)
    | _ => rfl

/-- Once the register is empty, the callback takes a character that is to be sent. -/
theorem eligible_sent (h : k.spcb.Eligible) (hp : k.spcb.Pending)
    (hn : k.spcb.sndCount < 2 ^ 32) :
    ∃ k', [Event.tick, .irdySnd].foldlM (Sys.step Register.sio ini) k = some k' ∧
      k'.spcb.siopcb.full = true ∧
      (k.spcb.rcvFcChr ≠ NUL ∧ k'.spcb.rcvFcChr = NUL ∧ k'.spcb.sndCount = k.spcb.sndCount ∨
        k.spcb.rcvFcChr = NUL ∧ k'.spcb.sndCount + 1 = k.spcb.sndCount) := by
  let q : SPCB Register := { k.spcb with siopcb := { k.spcb.siopcb with full := false } }
  have hi : Register.sio.irdy q.siopcb = true := h hp
  refine ⟨({ k with spcb := q } : Sys Register).callback (q.irdySnd Register.sio ini), ?_, ?_⟩
  · exact ((Trans.Run.one (e := Event.tick) rfl).snoc (if_pos hi)).foldlM
  · obtain ⟨b, hb⟩ := callback_same { k with spcb := q } (q.irdySnd Register.sio ini)
    rw [hb]
    unfold SPCB.irdySnd
    by_cases hf : k.spcb.rcvFcChr = NUL
    · have hs := hp.resolve_left (not_not_intro hf)
      rw [if_neg (not_not_intro hf), if_pos hs]
      refine ⟨rfl, .inr ⟨hf, ?_⟩⟩
      change dec k.spcb.sndCount + 1 = k.spcb.sndCount
      unfold dec
      omega
    · rw [if_pos hf]
      exact ⟨rfl, .inl ⟨hf, rfl, rfl⟩⟩

/-- The output does not get stuck in a run that does not strand it: a character that is to be sent
has the callback enabled, and is taken as soon as the register is empty; and a step that strands the
output leaves such a character with the callback disabled. -/
theorem reachable_eligible (ini : SPINIB) (p : SPCB Register) (d : Register)
    (h : Trans.Run (fun k e k' => k.step Register.sio ini e = some k' ∧ e.strands k.spcb = false)
      (Sys.opened p d) es k) :
    (k.spcb.Pending → k.spcb.siopcb.cbr = true ∧
      ∃ k', [Event.tick, .irdySnd].foldlM (Sys.step Register.sio ini) k = some k' ∧
        k'.spcb.siopcb.full = true ∧
        (k.spcb.rcvFcChr ≠ NUL ∧ k'.spcb.rcvFcChr = NUL ∧ k'.spcb.sndCount = k.spcb.sndCount ∨
          k.spcb.rcvFcChr = NUL ∧ k'.spcb.sndCount + 1 = k.spcb.sndCount)) ∧
    ∀ e k', k.step Register.sio ini e = some k' →
      ((k'.spcb.Pending → k'.spcb.siopcb.cbr = true) ↔ e.strands k.spcb = false) := by
  have hk : k.spcb.sndCount < 2 ^ 32 ∧ k.spcb.Eligible := by
    refine h.invariant (I := fun k => k.spcb.sndCount < 2 ^ 32 ∧ k.spcb.Eligible)
      (fun t e u ht he => ?_) ⟨show 0 < 2 ^ 32 by decide, fun hp => ?_⟩
    · exact ⟨step_sndCount_lt he.1 ht.1, (step_eligible he.1 ht.1 ht.2).2 he.2⟩
    · exact absurd hp (not_or.2 ⟨not_not_intro rfl, fun hn => Nat.lt_irrefl 0 hn.2⟩)
  exact ⟨fun hp => ⟨hk.2 hp, eligible_sent hk.2 hp hk.1⟩,
    fun e k' he => step_eligible he hk.1 hk.2⟩

theorem reachable_eligible_full : ∃ k, [Event.serialWriDat 1 [0x61], .run 1, .run 1, .run 1,
    .run 1].foldlM (Sys.step Register.sio .default)
      (Sys.opened (.cleared ⟨true, false⟩) ⟨true, false⟩) = some k ∧ k.spcb.siopcb.cbr = true := by
  have h : ([Event.serialWriDat 1 [0x61], .run 1, .run 1, .run 1, .run 1].foldlM
      (Sys.step Register.sio .default)
      (Sys.opened (.cleared ⟨true, false⟩) ⟨true, false⟩)).any (fun k =>
      decide (k.spcb.sndStopped = false ∧ 0 < k.spcb.sndCount)) = true := by
    decide +kernel
  obtain ⟨k, hk, hp⟩ := (Option.any_eq_true _ _).1 h
  have hr : Trans.Run (fun (k : Sys Register) (e : Event) k' =>
      k.step Register.sio .default e = some k' ∧ e.strands k.spcb = false) _ _ _ :=
    (Trans.Run.of_foldlM hk).restrict (P := fun e => ∀ p, e.strands p = false)
      (fun _ _ _ hp he => ⟨he, hp _⟩) (by simp [Event.strands])
  exact ⟨k, hk, ((reachable_eligible .default _ _ hr).1 (.inr (of_decide_eq_true hp))).1⟩

/-- Two characters are written while the output is stopped, and START is received. -/
theorem eligible_stranded : ∃ k, [Event.irdyRcv FC_STOP, .serialWriDat 1 [0x61, 0x62], .run 1,
    .run 1, .run 1, .run 1, .run 1, .run 1, .irdyRcv FC_START].foldlM
      (Sys.step Register.sio .default) .first = some k ∧
    k.spcb.Pending ∧ k.spcb.siopcb.cbr = false := by
  have h : ([Event.irdyRcv FC_STOP, .serialWriDat 1 [0x61, 0x62], .run 1,
      .run 1, .run 1, .run 1, .run 1, .run 1, .irdyRcv FC_START].foldlM
        (Sys.step Register.sio .default) .first).any (fun k =>
      decide ((k.spcb.sndStopped = false ∧ 0 < k.spcb.sndCount) ∧
        k.spcb.siopcb.cbr = false)) = true := by
    decide +kernel
  obtain ⟨k, hk, h⟩ := (Option.any_eq_true _ _).1 h
  obtain ⟨hp, hc⟩ := of_decide_eq_true h
  exact ⟨k, hk, .inr hp, hc⟩

end

end AspKernel.Serial
