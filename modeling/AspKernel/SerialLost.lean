import AspKernel.SerialSnd

/-! A port whose receive semaphore has been lost: no task reads from it any more, and what is sent
is not affected. -/

namespace AspKernel.Serial
set_option autoImplicit true

section
variable {δ : Type} {D : Sio δ} {ini : SPINIB} {k k' : Sys δ}

/-- The characters that have been received are left out. -/
def SPCB.blank (p : SPCB δ) : SPCB δ := { p with rcvCount := 0 }

def Sys.blank (k : Sys δ) : Sys δ := { k with spcb := k.spcb.blank }

/-- There are characters that no task can read, and all else is as in a port without them. -/
structure Sys.Lost (ini : SPINIB) (k : Sys δ) : Prop where
  pos : 0 < k.spcb.rcvCount
  le : k.spcb.rcvCount ≤ ini.rcvBufsz
  ok : k.blank.Ok ini [] none

@[simp] theorem blank_sndCount (p : SPCB δ) : p.blank.sndCount = p.sndCount := rfl
@[simp] theorem blank_sndStopped (p : SPCB δ) : p.blank.sndStopped = p.sndStopped := rfl
@[simp] theorem blank_siopcb (p : SPCB δ) : p.blank.siopcb = p.siopcb := rfl
@[simp] theorem blank_sem (k : Sys δ) : k.blank.sem = k.sem := rfl
@[simp] theorem blank_task (k : Sys δ) : k.blank.task = k.task := rfl
@[simp] theorem blank_spcb (k : Sys δ) : k.blank.spcb = k.spcb.blank := rfl

theorem signal_blank (k : Sys δ) (s : SemId) :
    k.blank.signal s = ((k.signal s).1, (k.signal s).2.blank) := by
  unfold Sys.signal
  rw [blank_sem, blank_task]
  cases (k.sem s).waitQueue with
  | nil =>
    simp only
    split
    · rfl
    · rfl
  | cons t q =>
    simp only
    cases k.task t with
    | run p => rfl
    | wait s' f => rfl

theorem callback_blank (k : Sys δ) (r : SPCB δ × Option SemId) :
    (k.callback r).blank = k.blank.callback (r.1.blank, r.2) := by
  obtain ⟨p, s⟩ := r
  cases s with
  | none => rfl
  | some s =>
    have hs := signal_blank { k with spcb := p } s
    rw [show Sys.blank { k with spcb := p } = { k.blank with spcb := p.blank } from rfl] at hs
    unfold Sys.callback
    simp only [hs]
    by_cases he : (Sys.signal { k with spcb := p } s).1 < 0
    · rw [if_pos he, if_pos he]
      rfl
    · rw [if_neg he, if_neg he]

theorem serialSndChr_blank (p : SPCB δ) (c : Char) :
    p.blank.serialSndChr D c = ((p.serialSndChr D c).1, (p.serialSndChr D c).2.blank) := by
  unfold SPCB.serialSndChr
  rw [blank_siopcb]
  simp only
  split
  · rfl
  · rfl

theorem wriChr_blank (p : SPCB δ) (c : Char) :
    p.blank.wriChr D ini c = ((p.wriChr D ini c).1, (p.wriChr D ini c).2.blank) := by
  unfold SPCB.wriChr
  rw [serialSndChr_blank, blank_sndCount, blank_sndStopped]
  by_cases hc : p.sndCount = 0 ∧ p.sndStopped = false
  · simp only [if_pos hc]
    split
    · rfl
    · rfl
  · simp only [if_neg hc]
    rfl

theorem exec_blank (k : Sys δ) (t : Nat) (f : op.Out → Code (ER × List Char)) (h : op ≠ .reaChr) :
    (k.exec D ini t op f).blank = k.blank.exec D ini t op f := by
  cases op with
  | openflag => rfl
  | errorflag => rfl
  | ioctl => rfl
  | setErrorflag => rfl
  | waiSem s =>
    simp only [Sys.exec]
    by_cases hn : 0 < (k.sem s).semcnt
    · rw [if_pos hn]
      exact (if_pos hn).symm
    · rw [if_neg hn]
      exact (if_neg hn).symm
  | sigSem s =>
    simp only [Sys.exec]
    rw [show k.blank.hold s t false = (k.hold s t false).blank from rfl, signal_blank]
    rfl
  | wriChr c =>
    simp only [Sys.exec]
    rw [blank_spcb, wriChr_blank]
    rfl
  | reaChr => exact absurd rfl h

/-- A semaphore that a callback signals is not the one of the receive buffer. -/
theorem Signals.blank {p : SPCB δ} (h : Signals ini p r) (h0 : 0 < p.rcvCount) :
    0 < r.1.rcvCount ∧ Signals ini p.blank (r.1.blank, r.2) := by
  have hav : p.avail ini .rcv = true := decide_eq_true h0
  have hr : r.2 ≠ some .rcv := fun hr =>
    Bool.false_ne_true ((h.met .rcv hr).1.symm.trans hav)
  refine ⟨of_decide_eq_true ((h.same .rcv hr).trans hav), Nat.zero_le _, h.snd_le,
    fun s hs => ?_, fun s hs => ?_⟩
  · cases s with
    | rcv => exact absurd hs hr
    | snd => exact h.met .snd hs
  · cases s with
    | rcv => rfl
    | snd => exact h.same .snd hs

theorem Sys.Lost.not_held (h : k.Lost ini) (t : Nat) : k.held .rcv t = false :=
  ((h.ok.token .rcv nofun).unmet rfl).2 t

theorem Sys.Lost.callback (h : k.Lost ini) (hr : Signals ini k.spcb r) :
    (k.callback r).Lost ini := by
  obtain ⟨h0, hb⟩ := hr.blank h.pos
  obtain ⟨b, hs⟩ := callback_same k r
  refine ⟨?_, ?_, ?_⟩
  · rw [hs]
    exact h0
  · rw [hs]
    exact hr.rcv_le
  · rw [callback_blank]
    exact h.ok.callback hb

theorem Sys.Lost.signal_callback (h : k.Lost ini) (hr : Signals ini k.spcb r)
    (hs : r.2 = some s) : ({ k with spcb := r.1 }.signal s).1 = E_OK := by
  have hb := h.ok.signal_callback (hr.blank h.pos).2 hs
  have he := signal_blank { k with spcb := r.1 } s
  exact (congrArg Prod.fst he).symm.trans hb

/-- An operation of a task: none of them reads a character. -/
theorem Sys.Lost.exec (h : k.Lost ini) (ht : k.task t = .run (.call op f)) :
    (k.exec D ini t op f).Lost ini := by
  have hop : op ≠ .reaChr := by
    rintro rfl
    exact Bool.false_ne_true ((h.not_held t).symm.trans (h.ok.run ht).1.2)
  have hc : (k.exec D ini t op f).spcb.rcvCount = k.spcb.rcvCount := by
    cases op with
    | waiSem s =>
      simp only [Sys.exec]
      split
      · rfl
      · rfl
    | sigSem s => exact congrArg SPCB.rcvCount (signal_spcb (k.hold s t false) s)
    | wriChr c =>
      have hs := of_decide_eq_true ((h.ok.token .snd (by simp)).held (h.ok.run ht).1.2).1
      exact (wriChr_counts k.spcb c hs).1
    | reaChr => exact absurd rfl hop
    | _ => rfl
  refine ⟨hc ▸ h.pos, hc ▸ h.le, ?_⟩
  rw [exec_blank k t f hop]
  exact h.ok.exec ht

theorem Sys.Lost.step (h : k.Lost ini) (he : k.step D ini e = some k') : k'.Lost ini := by
  have hk {t} : (Event.relWai t).keepsRcv k.blank = true := congrArg (!·) (h.not_held t)
  cases e with
  | serialReaDat t len =>
    simp only [Sys.step] at he
    split at he
    · rename_i ht
      cases he
      exact ⟨h.pos, h.le, h.ok.start ht (wp_serialReaDat len)⟩
    · cases he
  | serialWriDat t buf =>
    simp only [Sys.step] at he
    split at he
    · rename_i ht
      cases he
      exact ⟨h.pos, h.le,
        h.ok.start ht (Prog.wp.bind ((wp_serialWriDat buf).mono fun _ _ hd => hd))⟩
    · cases he
  | serialCtlPor ioctl =>
    cases he
    split
    · exact h
    · exact ⟨h.pos, h.le, h.ok.spcb h.ok.rcv_le h.ok.snd_le rfl⟩
  | run t =>
    simp only [Sys.step] at he
    split at he
    · rename_i ht
      cases he
      exact h.exec ht
    · cases he
  | relWai t =>
    have hb : k.blank.step D ini (.relWai t) = some k'.blank := by
      simp only [Sys.step, blank_task] at he ⊢
      split at he
      · cases he
        rfl
      · cases he
    refine ⟨?_, ?_, h.ok.step hk hb⟩
    · simp only [Sys.step] at he
      split at he
      · cases he
        exact h.pos
      · cases he
    · simp only [Sys.step] at he
      split at he
      · cases he
        exact h.le
      · cases he
  | reorder s q =>
    simp only [Sys.step] at he
    split at he
    · rename_i hq
      cases he
      exact ⟨h.pos, h.le, h.ok.step (D := D) (e := .reorder s q) rfl (if_pos hq)⟩
    · cases he
  | irdyRcv c =>
    cases he
    exact h.callback (irdyRcv_signals k.spcb c h.le h.ok.snd_le)
  | irdySnd =>
    simp only [Sys.step] at he
    split at he
    · cases he
      exact h.callback (irdySnd_signals k.spcb h.le h.ok.snd_le)
    · cases he
  | tick =>
    cases he
    exact ⟨h.pos, h.le, h.ok.spcb h.ok.rcv_le h.ok.snd_le rfl⟩

/-- A task that returns leaves the receive semaphore anyway. -/
theorem goto_hold_blank (k : Sys δ) (t : Nat) (a : ER × List Char) :
    { k.hold .rcv t false with spcb := k.spcb.blank }.goto t (.ret a) =
      (k.goto t (.ret a)).blank := by
  refine congrArg (Sys.mk k.spcb.blank k.sem (Function.update k.task t (.run (.ret a))))
    (funext fun s => ?_)
  cases s with
  | rcv => exact Function.update_idem ..
  | snd => rfl

/-- A task whose wait is ended while it holds the receive semaphore leaves the call with it. -/
theorem Sys.Ok.relWai_lost (h : k.Ok ini [] none) (hh : k.held .rcv t = true)
    (he : k.step D ini (.relWai t) = some k') : k'.Lost ini := by
  simp only [Sys.step] at he
  split at he
  · rename_i s f ht
    cases he
    have hok := h.task t List.not_mem_nil
    rw [ht] at hok
    have hrl := hok.2.2
    have hr : (k.own t).rcv = true := hh
    have h0 := of_decide_eq_true ((h.token .rcv (by simp)).held hh).1
    cases hf : f E_RLWAI with
    | call op g =>
      rw [hf] at hrl
      exact absurd (hr.symm.trans hrl.1.1) (Bool.false_ne_true ∘ Eq.symm)
    | ret a =>
      rw [hf] at hrl
      refine ⟨h0, h.rcv_le, ?_⟩
      have h1 := ((h.unqueue ht).drop (s := .rcv) List.mem_cons_self hh).unmet
        (p := k.spcb.blank) (Nat.zero_le _) h.snd_le rfl fun s' hs' => by
          cases s' with
          | rcv => exact absurd rfl hs'
          | snd => rfl
      have h2 := h1.goto (p := .ret a) List.not_mem_nil ⟨hrl.1, Function.update_self ..⟩
      exact goto_hold_blank _ t a ▸ h2
  · cases he

/-- What holds of a port in every run. -/
def Sys.Sound (ini : SPINIB) (k : Sys δ) : Prop := k.Ok ini [] none ∨ k.Lost ini

theorem Sys.Sound.step (h : k.Sound ini) (he : k.step D ini e = some k') : k'.Sound ini := by
  rcases h with h | h
  · cases hk : e.keepsRcv k with
    | true => exact .inl (h.step hk he)
    | false =>
      cases e with
      | relWai t =>
        have hh : (!k.held .rcv t) = false := hk
        exact .inr (h.relWai_lost (Bool.not_eq_false' _ ▸ hh) he)
      | _ => cases hk
  · exact .inr (h.step he)

/-- What is sent does not depend on whether the receive semaphore has been lost. -/
theorem Sys.Sound.ok (h : k.Sound ini) : k.Ok ini [] none ∨ k.blank.Ok ini [] none :=
  h.imp_right Sys.Lost.ok

theorem Sys.Sound.snd_le (h : k.Sound ini) : k.spcb.sndCount ≤ ini.sndBufsz :=
  h.ok.elim Sys.Ok.snd_le fun hb => hb.snd_le

theorem Sys.Sound.token (h : k.Sound ini) : Token (k.spcb.avail ini .snd) (k.sem .snd).semcnt
    (k.sem .snd).waitQueue (k.held .snd) :=
  h.ok.elim (fun ho => ho.token .snd nofun) fun hb => hb.token .snd nofun

/-- The signal of a callback succeeds. -/
theorem Sys.Sound.irdyRcv (h : k.Sound ini) (c : Char) (hs : (k.spcb.irdyRcv D ini c).2 = some s) :
    ({ k with spcb := (k.spcb.irdyRcv D ini c).1 }.signal s).1 = E_OK := by
  rcases h with h | h
  · exact h.signal_callback (irdyRcv_signals k.spcb c h.rcv_le h.snd_le) hs
  · exact h.signal_callback (irdyRcv_signals k.spcb c h.le h.ok.snd_le) hs

theorem Sys.Sound.irdySnd (h : k.Sound ini) (hs : (k.spcb.irdySnd D ini).2 = some s) :
    ({ k with spcb := (k.spcb.irdySnd D ini).1 }.signal s).1 = E_OK := by
  rcases h with h | h
  · exact h.signal_callback (irdySnd_signals k.spcb h.rcv_le h.snd_le) hs
  · exact h.signal_callback (irdySnd_signals k.spcb h.le h.ok.snd_le) hs

/-- A writer puts a character into a buffer that is not full. -/
theorem Sys.Sound.room (h : k.Sound ini) (ht : k.task t = .run (.call (.wriChr c) f)) :
    k.spcb.sndCount < ini.sndBufsz :=
  have hh : k.held .snd t = true :=
    h.ok.elim (fun ho => (ho.run ht).1.2) fun hb => (hb.run ht).1.2
  of_decide_eq_true (h.token.held hh).1

/-- A task outside a call holds no semaphore of the send buffer. -/
theorem Sys.Sound.outside (h : k.Sound ini) (ht : k.task t = .run (.ret a)) :
    k.held .snd t = false :=
  h.ok.elim (fun ho => (ho.run ht).1) fun hb => (hb.run ht).1

end

end AspKernel.Serial
