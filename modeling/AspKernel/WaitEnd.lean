import AspKernel.Exist

namespace AspKernel
set_option autoImplicit true

/-- An event that can end the wait of the task `u` in the queue `q` with the code `er`. -/
def Event.endsWait (k : Kernel) (u : Nat) (q : WQueue) (er : ER) : Event → Prop
  | .call c => er = E_OK ∧ c.serves q ∨ er = E_DLT ∧ c.init q ∨
      er = E_RLWAI ∧ c.own k u ∧ c.rel
  | .sigFire => er = E_TMOUT
  | _ => False

/-- An event that can end the task `u`. -/
def Event.ters (k : Kernel) (u : Nat) : Event → Prop
  | .call c => c.own k u ∧ c.ter
  | _ => False

section
variable {cfg : Cfg} {S : Scope} {P : WQueue → Prop} {R : Nat → Prop} {c c' : Core}
  {k k' : Kernel} {e : Event} {q : WQueue} {u : Nat}

/-- A task goes on with its wait. -/
structure TCB.Stays (p p' : TCB) : Prop where
  wait : p'.tstat.wait = p.tstat.wait
  winfo : p'.winfo = p.winfo

/-- The wait of a task has ended with a code, and the task has not been ended. -/
structure TCB.Left (p' : TCB) (er : ER) : Prop where
  waiting : p'.tstat.waiting = false
  alive : p'.tstat ≠ .DORMANT
  cell : p'.winfo.cell = .wercd er

theorem TCB.Stays.loc {p p' : TCB} (h : p.Stays p') (hl : p'.tstat.Legal)
    (hq : p.loc = some (.wait q)) : p'.loc = some (.wait q) := by
  obtain ⟨hr, hw, ho, hf, hi⟩ := TCB.loc_eq_wait.1 hq
  have hw' := (congrArg Prod.fst h.wait).trans hw
  have hf' : p'.tstat.factor = p.tstat.factor := congrArg Prod.snd h.wait
  refine TCB.loc_eq_wait.2 ⟨?_, hw', ?_, hf'.trans hf, h.winfo ▸ hi⟩
  · by_contra hn
    exact Bool.false_ne_true ((hl.runnable (Bool.not_eq_false _ ▸ hn)).1.symm.trans hw')
  · unfold TStat.waitWobj at ho ⊢
    rwa [hf']

theorem TCB.Stays.queue {p p' : TCB} (h : p.Stays p') (hq : p.loc = some (.wait q))
    (hq' : p'.loc = some (.wait r)) : r = q := by
  obtain ⟨-, -, -, hf, hi⟩ := TCB.loc_eq_wait.1 hq
  obtain ⟨-, -, -, hf', hi'⟩ := TCB.loc_eq_wait.1 hq'
  have hff : p'.tstat.factor = p.tstat.factor := congrArg Prod.snd h.wait
  exact Prod.ext (hf'.symm.trans (hff.trans hf)) (hi'.symm.trans ((congrArg _ h.winfo).trans hi))

/-- The wait of a task in a queue goes on through the changes of a call, or it ends, or the task
does. -/
theorem Moves.wait (m : Moves cfg S P R c b c') (h : CoreInv cfg noD c) (hr : c.Running)
    (hl : (c.tcb u).loc = some (.wait q)) : (c.tcb u).Stays (c'.tcb u) ∨
      (∃ er, (S.ends P q er ∨ S.own u ∧ S.rel ∧ er = E_RLWAI) ∧ (c'.tcb u).Left er) ∨
      S.own u ∧ S.ter := by
  obtain ⟨hn, hw, ho, -, -⟩ := TCB.loc_eq_wait.1 hl
  have hrun : ¬c.pRuntsk = some u := fun he => Bool.false_ne_true (hn.symm.trans (hr u he))
  refine m.tasks (Q := fun p => (c.tcb u).Stays p ∨
    (∃ er, (S.ends P q er ∨ S.own u ∧ S.rel ∧ er = E_RLWAI) ∧ p.Left er) ∨ S.own u ∧ S.ter)
    h (fun b p p' ht hq => ?_) (.inl ⟨rfl, rfl⟩)
  rcases hq with hs | ⟨er, he, hq⟩ | hq
  · have hwp : p.tstat.waiting = true := (congrArg Prod.fst hs.wait).trans hw
    have hd : p.tstat ≠ .DORMANT := ne_dormant_of_waiting hwp
    cases ht with
    | keep hsm hu =>
      cases hu with
      | calm hc =>
        rcases hc.state with ⟨h1, h2⟩ | ⟨r, e, hlp, hW, h1, h2⟩
        · exact .inl ⟨h1 ▸ hs.wait, h2.trans hs.winfo⟩
        · have hrq := hs.queue hl hlp
          exact .inr (.inl ⟨e, .inl (hrq ▸ hW), h1 ▸ p.tstat.nonWait_waiting,
            h1 ▸ p.tstat.nonWait_ne, h2⟩)
      | block hb _ _ => exact absurd hb hrun
      | own hO h1 h2 => exact .inl ⟨h1.trans hs.wait, h2.trans hs.winfo⟩
      | wake hO h1 h2 =>
        unfold TStat.waitWobj at ho h2
        rw [show p.tstat.factor = _ from congrArg Prod.snd hs.wait] at h2
        exact absurd (h2.symm.trans ho) Bool.false_ne_true
      | release hO hL h1 h2 h3 =>
        exact .inr (.inl ⟨E_RLWAI, .inr ⟨hO, hL, rfl⟩, h2 ▸ p.tstat.nonWait_waiting,
          h2 ▸ p.tstat.nonWait_ne, h3⟩)
    | tex hX hi hk hq => exact .inl ⟨hk.tstat ▸ hs.wait, hk.winfo.trans hs.winfo⟩
    | stop hO _ _ _ _ _ _ _ hT => exact .inr (.inr ⟨hO, hT⟩)
    | restart hO _ _ _ _ _ _ _ hT => exact .inr (.inr ⟨hO, hT⟩)
    | start hO h1 => exact absurd h1 hd
    | create hO hK h1 => exact absurd h1 hd
    | delete hO hK h1 => exact absurd h1 hd
  · cases ht with
    | keep hsm hu =>
      have hd : p'.tstat ≠ .DORMANT := fun he => hq.alive (hsm.dormant.1 he)
      cases hu with
      | calm hc =>
        rcases hc.state with ⟨h1, h2⟩ | ⟨r, e, hlp, _⟩
        · exact .inr (.inl ⟨er, he, h1 ▸ hq.waiting, hd, h2 ▸ hq.cell⟩)
        · exact absurd (hq.waiting.symm.trans (TCB.loc_eq_wait.1 hlp).2.1) Bool.false_ne_true
      | block hb _ _ => exact absurd hb hrun
      | own hO h1 h2 =>
        exact .inr (.inl ⟨er, he, (congrArg Prod.fst h1).trans hq.waiting, hd, h2 ▸ hq.cell⟩)
      | wake hO h1 h2 => exact absurd (hq.waiting.symm.trans h1) Bool.false_ne_true
      | release hO hL h1 h2 h3 => exact absurd (hq.waiting.symm.trans h1) Bool.false_ne_true
    | tex hX hi hk _ =>
      exact .inr (.inl ⟨er, he, hk.tstat ▸ hq.waiting, hk.tstat ▸ hq.alive, hk.winfo ▸ hq.cell⟩)
    | stop hO _ _ _ _ _ _ _ hT => exact .inr (.inr ⟨hO, hT⟩)
    | restart hO _ _ _ _ _ _ _ hT => exact .inr (.inr ⟨hO, hT⟩)
    | start hO h1 => exact absurd h1 hq.alive
    | create hO hK h1 => exact absurd h1 hq.alive
    | delete hO hK h1 => exact absurd h1 hq.alive
  · exact .inr (.inr hq)

/-- A callback of `signal_time` ends waits in queues with `E_TMOUT` only. -/
theorem Fire.wait (hf : Fire cfg c c') (hl : (c.tcb u).loc = some (.wait q)) :
    (c.tcb u).Stays (c'.tcb u) ∨ (c'.tcb u).Left E_TMOUT := by
  cases hf with
  | tsk hn hw he hq hi hc =>
    rename_i t er c2
    change (c.tcb u).Stays ((c2.makeNonWait t).1.tcb u) ∨ ((c2.makeNonWait t).1.tcb u).Left _
    rw [he.end_tcb]
    by_cases hut : u = t
    · subst hut
      rw [Function.update_self]
      have hne : er ≠ E_OK := fun heq =>
        Bool.false_ne_true ((hq heq).symm.trans (TCB.loc_eq_wait.1 hl).2.2.1)
      have het := hc.resolve_left hne
      exact .inr ⟨TStat.nonWait_waiting _, TStat.nonWait_ne _, congrArg WCell.wercd het⟩
    · rw [Function.update_of_ne hut]
      exact .inl ⟨rfl, rfl⟩
  | cyc hn hs => exact .inl ⟨rfl, rfl⟩
  | alm hn hs => exact .inl ⟨rfl, rfl⟩

/-- What an event does to a task that waits in a queue. -/
theorem RunInv.wait_step (h : RunInv cfg k.core) (hs : Step cfg k e k')
    (hl : (k.core.tcb u).loc = some (.wait q)) : (k.core.tcb u).Stays (k'.core.tcb u) ∨
      (∃ er, e.endsWait k u q er ∧ (k'.core.tcb u).Left er) ∨ e.ters k u := by
  have like {c : Core} (hk : (c.tcb u).Like (k'.core.tcb u)) {er : ER}
      (hc : (c.tcb u).Left er) : (k'.core.tcb u).Left er :=
    ⟨hk.tstat ▸ hc.waiting, hk.tstat ▸ hc.alive, hk.winfo ▸ hc.cell⟩
  have same {c : Core} (hk : (c.tcb u).Like (k'.core.tcb u))
      (hc : (k.core.tcb u).Stays (c.tcb u)) : (k.core.tcb u).Stays (k'.core.tcb u) :=
    ⟨hk.tstat ▸ hc.wait, hk.winfo.trans hc.winfo⟩
  have hcs := h.coreStep hs
  generalize hd : k'.core = d at hcs
  cases hcs with
  | call hc hm ha =>
    subst hd
    rcases hm.wait h.inv h.running hl with h1 | ⟨er, he, h1⟩ | h1
    · exact .inl (same (ha.tcb u) h1)
    · refine .inr (.inl ⟨er, ?_, like (ha.tcb u) h1⟩)
      rcases he with (⟨he, hp⟩ | ⟨he, hi⟩) | ⟨hO, hL, he⟩
      · exact .inl ⟨he, hp⟩
      · exact .inr (.inl ⟨he, hi⟩)
      · exact .inr (.inr ⟨he, hO, hL⟩)
    · exact .inr (.inr h1)
  | fire hf =>
    subst hd
    exact (hf.wait hl).imp_right fun h1 => .inl ⟨E_TMOUT, rfl, h1⟩
  | outside he hne ha =>
    subst hd
    exact .inl ⟨congrArg _ (ha.tcb u).tstat, (ha.tcb u).winfo⟩

end

end AspKernel
