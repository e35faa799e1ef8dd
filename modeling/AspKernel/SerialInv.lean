import AspKernel.Serial
import AspKernel.Lib.Token
import AspKernel.Lib.Run

namespace AspKernel.Serial
set_option autoImplicit true

/-- The semaphores that a task holds within its call. It has `lost` the receive semaphore when its
wait in the echo has been ended while it held it. -/
structure Own where
  rcv : Bool
  snd : Bool
  lost : Bool

def Own.held (o : Own) : SemId → Bool
  | .rcv => o.rcv
  | .snd => o.snd

def Own.set (o : Own) (b : Bool) : SemId → Own
  | .rcv => { o with rcv := b }
  | .snd => { o with snd := b }

/-- The rules of the two semaphores: a character is taken from the receive buffer, or put into the
send buffer, by a task that holds the semaphore, and the task then holds it as long as the buffer is
not empty, or not full. -/
def rules : Prog.Spec Op Op.Out Own where
  pre op o := o.lost = false ∧
    match op with
    | .waiSem s => o.held s = false
    | .sigSem s => o.held s = true
    | .wriChr _ => o.snd = true
    | .reaChr => o.rcv = true
    | _ => True
  post op o r o' :=
    match op with
    | .waiSem s => r = E_OK ∧ o' = o.set true s ∨ r = E_RLWAI ∧ o' = { o with lost := o.rcv }
    | .sigSem s => r = E_OK ∧ o' = o.set false s
    | .wriChr _ => o' = o.set (!r) .snd
    | .reaChr => o' = o.set (!r.2) .rcv
    | _ => o' = o

/-- A call returns without a semaphore, unless it has lost one. -/
def Done (_ : α) (o : Own) : Prop := o.snd = false ∧ o.rcv = o.lost

theorem wp_putChr (c : Char) (r : Bool) (Q : ER → Own → Prop) (h0 : Q 0 ⟨r, true, false⟩)
    (h1 : Q 1 ⟨r, false, false⟩) : (putChr c).wp rules ⟨r, true, false⟩ Q := by
  refine ⟨⟨rfl, rfl⟩, fun b o ho => ?_⟩
  cases ho
  cases b with
  | false => exact h0
  | true => exact h1

theorem wp_waiSem_snd (r : Bool) (Q : ER → Own → Prop) (hok : Q E_OK ⟨r, true, false⟩)
    (hrl : Q E_RLWAI ⟨r, false, r⟩) : (waiSem .snd).wp rules ⟨r, false, false⟩ Q := by
  refine ⟨⟨rfl, rfl⟩, fun e o ho => ?_⟩
  rcases ho with ⟨rfl, rfl⟩ | ⟨rfl, rfl⟩
  · exact hok
  · exact hrl

theorem wp_waiSem_rcv (Q : ER → Own → Prop) (hok : Q E_OK ⟨true, false, false⟩)
    (hrl : Q E_RLWAI ⟨false, false, false⟩) : (waiSem .rcv).wp rules ⟨false, false, false⟩ Q := by
  refine ⟨⟨rfl, rfl⟩, fun e o ho => ?_⟩
  rcases ho with ⟨rfl, rfl⟩ | ⟨rfl, rfl⟩
  · exact hok
  · exact hrl

/-- `serial_wri_chr` keeps the send semaphore unless it fills the buffer or its wait is ended. -/
theorem wp_serialWriChr (c : Char) (r : Bool) (Q : ER → Own → Prop)
    (h0 : Q 0 ⟨r, true, false⟩) (h1 : Q 1 ⟨r, false, false⟩) (hrl : Q E_RLWAI ⟨r, false, r⟩) :
    (serialWriChr c).wp rules ⟨r, true, false⟩ Q := by
  unfold serialWriChr
  split
  · refine ⟨⟨rfl, trivial⟩, fun i o ho => ?_⟩
    cases ho
    change Prog.wp rules (if i &&& IOCTL_CRLF ≠ 0 then _ else _) _ _
    split
    · refine Prog.wp.bind (wp_putChr CR r _ ?_ ?_)
      · exact wp_putChr c r Q h0 h1
      · exact Prog.wp.bind (wp_waiSem_snd r _ (wp_putChr c r Q h0 h1) hrl)
    · exact wp_putChr c r Q h0 h1
  · exact wp_putChr c r Q h0 h1

theorem wp_wriLoop (buf : List Char) (n : Nat) (full : Bool) :
    (wriLoop buf n full).wp rules ⟨false, !full, false⟩ Done := by
  induction buf generalizing n full with
  | nil =>
    cases full with
    | false =>
      refine ⟨⟨rfl, rfl⟩, fun e o ho => ?_⟩
      obtain ⟨rfl, rfl⟩ := ho
      exact ⟨rfl, rfl⟩
    | true => exact ⟨rfl, rfl⟩
  | cons c buf ih =>
    have hput (n) : (serialWriChr c >>= fun rercd =>
        if rercd < 0 then pure (exitCode n rercd) else wriLoop buf (n + 1) (rercd != 0)).wp rules
          ⟨false, true, false⟩ Done :=
      Prog.wp.bind (wp_serialWriChr c false _ (ih (n + 1) false) (ih (n + 1) true) ⟨rfl, rfl⟩)
    cases full with
    | false => exact hput n
    | true => exact Prog.wp.bind (wp_waiSem_snd false _ (hput n) ⟨rfl, rfl⟩)

theorem wp_serialWriDat (buf : List Char) :
    (serialWriDat buf).wp rules ⟨false, false, false⟩ Done := by
  unfold serialWriDat
  refine ⟨⟨rfl, trivial⟩, fun b o ho => ?_⟩
  cases ho
  cases b with
  | false => exact ⟨rfl, rfl⟩
  | true =>
    refine ⟨⟨rfl, trivial⟩, fun b o ho => ?_⟩
    cases ho
    cases b with
    | false => exact wp_wriLoop buf 0 true
    | true => exact ⟨rfl, rfl⟩

theorem wp_reaLoop (len n : Nat) (buf : List Char) (empty : Bool) :
    (reaLoop len n buf empty).wp rules ⟨!empty, false, false⟩ Done := by
  induction len generalizing n buf empty with
  | zero =>
    cases empty with
    | false =>
      refine ⟨⟨rfl, rfl⟩, fun e o ho => ?_⟩
      obtain ⟨rfl, rfl⟩ := ho
      exact ⟨rfl, rfl⟩
    | true => exact ⟨rfl, rfl⟩
  | succ len ih =>
    have hread : (reaLoop (len + 1) n buf false).wp rules ⟨true, false, false⟩ Done := by
      refine ⟨⟨rfl, rfl⟩, fun (c, e) o ho => ?_⟩
      cases ho
      refine ⟨⟨rfl, trivial⟩, fun i o ho => ?_⟩
      cases ho
      have hnext := ih (n + 1) (buf ++ [c]) e
      change Prog.wp rules (if i &&& IOCTL_ECHO ≠ 0 then _ else _) _ _
      split
      · refine Prog.wp.bind (wp_waiSem_snd (!e) _ ?_ ⟨rfl, rfl⟩)
        refine Prog.wp.bind (wp_serialWriChr c (!e) _ ?_ hnext ⟨rfl, rfl⟩)
        refine ⟨⟨rfl, rfl⟩, fun r o ho => ?_⟩
        obtain ⟨rfl, rfl⟩ := ho
        exact hnext
      · exact hnext
    cases empty with
    | false => exact hread
    | true => exact Prog.wp.bind (wp_waiSem_rcv _ hread ⟨rfl, rfl⟩)

theorem wp_serialReaDat (len : Nat) :
    (serialReaDat len).wp rules ⟨false, false, false⟩ Done := by
  unfold serialReaDat
  refine ⟨⟨rfl, trivial⟩, fun b o ho => ?_⟩
  cases ho
  cases b with
  | false => exact ⟨rfl, rfl⟩
  | true =>
    refine ⟨⟨rfl, trivial⟩, fun b o ho => ?_⟩
    cases ho
    cases b with
    | false => exact wp_reaLoop len 0 [] true
    | true => exact ⟨rfl, rfl⟩

section
variable {δ : Type} {D : Sio δ} {ini : SPINIB} {k : Sys δ} {p : Code (ER × List Char)}

/-- The condition that a semaphore stands for: there are characters in the receive buffer, there is
room in the send buffer. -/
def SPCB.avail (ini : SPINIB) (p : SPCB δ) : SemId → Bool
  | .rcv => decide (0 < p.rcvCount)
  | .snd => decide (p.sndCount < ini.sndBufsz)

def Sys.own (k : Sys δ) (t : Nat) : Own := ⟨k.held .rcv t, k.held .snd t, false⟩

def Task.Ok (o : Own) : Task → Prop
  | .run p => p.wp rules o Done
  | .wait s f => o.held s = false ∧ (f E_OK).wp rules (o.set true s) Done ∧
    (f E_RLWAI).wp rules { o with lost := o.rcv } Done

/-- The state of a port, while the tasks `x` are between two states and the semaphore `d` is to be
signaled. -/
structure Sys.Ok (ini : SPINIB) (x : List Nat) (d : Option SemId) (k : Sys δ) : Prop where
  rcv_le : k.spcb.rcvCount ≤ ini.rcvBufsz
  snd_le : k.spcb.sndCount ≤ ini.sndBufsz
  token : ∀ s, d ≠ some s →
    Token (k.spcb.avail ini s) (k.sem s).semcnt (k.sem s).waitQueue (k.held s)
  due : d = some s → k.spcb.avail ini s = true ∧ Token.Due (k.sem s).semcnt (k.held s)
  wait : ∀ s t, t ∈ (k.sem s).waitQueue ↔ t ∉ x ∧ ∃ f, k.task t = .wait s f
  nodup : ∀ s, (k.sem s).waitQueue.Nodup
  task : ∀ t, t ∉ x → (k.task t).Ok (k.own t)

theorem own_held (k : Sys δ) (t : Nat) (s : SemId) : (k.own t).held s = k.held s t := by
  cases s with
  | rcv => rfl
  | snd => rfl

theorem hold_held (k : Sys δ) (s : SemId) (t : Nat) (b : Bool) :
    (k.hold s t b).held s = Function.update (k.held s) t b := Function.update_self ..

theorem hold_held_of_ne (k : Sys δ) (t : Nat) (b : Bool) (h : s' ≠ s) :
    (k.hold s t b).held s' = k.held s' := Function.update_of_ne h ..

theorem own_hold (k : Sys δ) (s : SemId) (t : Nat) (b : Bool) :
    (k.hold s t b).own t = (k.own t).set b s := by
  cases s with
  | rcv => exact congrArg (Own.mk · _ _) (Function.update_self ..)
  | snd => exact congrArg (Own.mk _ · _) (Function.update_self ..)

theorem own_hold_of_ne (k : Sys δ) (s : SemId) (b : Bool) (h : u ≠ t) :
    (k.hold s t b).own u = k.own u := by
  cases s with
  | rcv => exact congrArg (Own.mk · _ _) (Function.update_of_ne h ..)
  | snd => exact congrArg (Own.mk _ · _) (Function.update_of_ne h ..)

theorem goto_held (h : p.wp rules (k.own t) Done) : (k.goto t p).held = k.held := by
  cases p with
  | call op f => rfl
  | ret a =>
    funext s
    cases s with
    | rcv => exact Function.update_eq_self_iff.2 h.2.symm
    | snd => exact Function.update_eq_self_iff.2 h.1.symm

theorem Sys.Ok.goto (h : k.Ok ini (t :: x) d) (ht : t ∉ x) (hp : p.wp rules (k.own t) Done) :
    (k.goto t p).Ok ini x d := by
  have hh := goto_held hp
  have hown (u) : (k.goto t p).own u = k.own u := by
    unfold Sys.own
    rw [hh]
  refine ⟨h.rcv_le, h.snd_le, fun s hs => hh ▸ h.token s hs, fun hs => hh ▸ h.due hs,
    fun s u => (h.wait s u).trans ?_, h.nodup, fun u hu => ?_⟩
  · by_cases hut : u = t
    · subst hut
      change _ ↔ _ ∧ ∃ f, Function.update k.task u _ u = _
      rw [Function.update_self]
      simp
    · change _ ↔ _ ∧ ∃ f, Function.update k.task t _ u = _
      rw [Function.update_of_ne hut, List.mem_cons, or_iff_right hut]
  · rw [hown]
    change (Function.update k.task t _ u).Ok _
    by_cases hut : u = t
    · subst hut
      rw [Function.update_self]
      exact hp
    · rw [Function.update_of_ne hut]
      exact h.task u fun hm => (List.mem_cons.1 hm).elim hut hu

/-- A task that runs can be set aside. -/
theorem Sys.Ok.aside (h : k.Ok ini x d) (ht : k.task t = .run p) : k.Ok ini (t :: x) d := by
  refine ⟨h.rcv_le, h.snd_le, h.token, h.due, fun s u => (h.wait s u).trans ?_, h.nodup,
    fun u hu => h.task u fun hm => hu (List.mem_cons_of_mem t hm)⟩
  by_cases hut : u = t
  · subst hut
    simp [ht]
  · rw [List.mem_cons, or_iff_right hut]

theorem Sys.Ok.run (h : k.Ok ini [] none) (ht : k.task t = .run p) :
    p.wp rules (k.own t) Done := by
  have hok := h.task t List.not_mem_nil
  rw [ht] at hok
  exact hok

/-- A change of the control block that keeps the conditions of the semaphores. -/
theorem Sys.Ok.spcb {p : SPCB δ} (h : k.Ok ini x d) (hr : p.rcvCount ≤ ini.rcvBufsz)
    (hs : p.sndCount ≤ ini.sndBufsz) (ha : p.avail ini = k.spcb.avail ini) :
    { k with spcb := p }.Ok ini x d :=
  ⟨hr, hs, fun s hd => ha ▸ h.token s hd, fun hd => ha ▸ h.due hd, h.wait, h.nodup, h.task⟩

/-- A buffer becomes empty or full, and the semaphore is not signaled. -/
theorem Sys.Ok.unmet {p : SPCB δ} (h : k.Ok ini x (some s)) (hr : p.rcvCount ≤ ini.rcvBufsz)
    (hs : p.sndCount ≤ ini.sndBufsz) (ha : p.avail ini s = false)
    (hn : ∀ s' ≠ s, p.avail ini s' = k.spcb.avail ini s') : { k with spcb := p }.Ok ini x none := by
  refine ⟨hr, hs, fun s' _ => ?_, nofun, h.wait, h.nodup, h.task⟩
  by_cases hss : s' = s
  · subst hss
    exact ha ▸ (h.due rfl).2.unmet _
  · exact hn s' hss ▸ h.token s' fun he => hss (Option.some.inj he).symm

/-- A buffer is no more empty or full, and the semaphore is to be signaled. -/
theorem Sys.Ok.met {p : SPCB δ} (h : k.Ok ini x none) (hr : p.rcvCount ≤ ini.rcvBufsz)
    (hs : p.sndCount ≤ ini.sndBufsz) (ha : k.spcb.avail ini s = false)
    (ha' : p.avail ini s = true) (hn : ∀ s' ≠ s, p.avail ini s' = k.spcb.avail ini s') :
    { k with spcb := p }.Ok ini x (some s) := by
  refine ⟨hr, hs, fun s' hd => ?_, fun hd => ?_, h.wait, h.nodup, h.task⟩
  · exact hn s' (fun he => hd (congrArg some he.symm)) ▸ h.token s' nofun
  · cases hd
    have ht := h.token s nofun
    rw [ha] at ht
    exact ⟨ha', ht.due⟩

theorem Sys.Ok.take (h : k.Ok ini x (some s)) (ht : t ∈ x) :
    (k.hold s t true).Ok ini x none := by
  refine ⟨h.rcv_le, h.snd_le, fun s' _ => ?_, nofun, h.wait, h.nodup, fun u hu => ?_⟩
  · by_cases hss : s' = s
    · subst hss
      rw [hold_held]
      exact (h.due rfl).1 ▸ (h.due rfl).2.take _ t
    · rw [hold_held_of_ne k t true hss]
      exact h.token s' fun he => hss (Option.some.inj he).symm
  · have hut : u ≠ t := fun he => hu (he ▸ ht)
    exact own_hold_of_ne k s true hut ▸ h.task u hu

theorem Sys.Ok.drop (h : k.Ok ini x none) (ht : t ∈ x) (hh : k.held s t = true) :
    (k.hold s t false).Ok ini x (some s) := by
  have hk := h.token s nofun
  refine ⟨h.rcv_le, h.snd_le, fun s' hd => ?_, fun hd => ?_, h.wait, h.nodup, fun u hu => ?_⟩
  · rw [hold_held_of_ne k t false fun he => hd (congrArg some he.symm)]
    exact h.token s' nofun
  · cases hd
    rw [hold_held]
    exact ⟨(hk.held hh).1, hk.drop hh⟩
  · have hut : u ≠ t := fun he => hu (he ▸ ht)
    exact own_hold_of_ne k s false hut ▸ h.task u hu

theorem setSem_sem (k : Sys δ) (s : SemId) (m : Sem) : (k.setSem s m).sem s = m :=
  Function.update_self ..

theorem setSem_sem_of_ne (k : Sys δ) (m : Sem) (h : s' ≠ s) :
    (k.setSem s m).sem s' = k.sem s' := Function.update_of_ne h ..

theorem setSem_queue {m : Sem} (hm : m.waitQueue = (k.sem s).waitQueue) (s' : SemId) :
    ((k.setSem s m).sem s').waitQueue = (k.sem s').waitQueue := by
  by_cases hs : s' = s
  · subst hs
    rw [setSem_sem, hm]
  · rw [setSem_sem_of_ne k m hs]

/-- A task leaves its queue. -/
theorem Sys.Ok.unqueue (h : k.Ok ini x d) (ht : k.task t = .wait s f) :
    (k.setSem s { k.sem s with waitQueue := (k.sem s).waitQueue.erase t }).Ok ini (t :: x) d := by
  refine ⟨h.rcv_le, h.snd_le, fun s' hd => ?_, fun hd => ?_, fun s' u => ?_, fun s' => ?_,
    fun u hu => h.task u fun hm => hu (List.mem_cons_of_mem t hm)⟩
  · by_cases hss : s' = s
    · subst hss
      rw [setSem_sem]
      exact (h.token s' hd).perm fun hq => (congrArg (List.erase · t) hq).trans rfl
    · rw [setSem_sem_of_ne k _ hss]
      exact h.token s' hd
  · refine ⟨(h.due hd).1, ?_⟩
    rename_i s'
    by_cases hss : s' = s
    · subst hss
      rw [setSem_sem]
      exact (h.due hd).2
    · rw [setSem_sem_of_ne k _ hss]
      exact (h.due hd).2
  · rw [List.mem_cons, not_or]
    by_cases hss : s' = s
    · subst hss
      rw [setSem_sem, (h.nodup s').mem_erase_iff, h.wait, and_assoc]
      rfl
    · rw [setSem_sem_of_ne k _ hss, h.wait]
      refine ⟨fun hu => ⟨⟨?_, hu.1⟩, hu.2⟩, fun hu => ⟨hu.1.2, hu.2⟩⟩
      rintro rfl
      obtain ⟨-, f', hf⟩ := hu
      rw [ht] at hf
      cases hf
      exact hss rfl
  · by_cases hss : s' = s
    · subst hss
      rw [setSem_sem]
      exact (h.nodup s').erase t
    · rw [setSem_sem_of_ne k _ hss]
      exact h.nodup s'

/-- The signal of a semaphore that stands for a condition that is met succeeds. -/
theorem Sys.Ok.signal (h : k.Ok ini x (some s)) :
    (k.signal s).1 = E_OK ∧ (k.signal s).2.Ok ini x none ∧
      ∀ t ∈ x, (k.signal s).2.own t = k.own t := by
  obtain ⟨ha, hd⟩ := h.due rfl
  unfold Sys.signal
  cases hq : (k.sem s).waitQueue with
  | nil =>
    simp only [hd.cnt, Nat.zero_lt_one, ↓reduceIte]
    have hsq := setSem_queue (k := k) (s := s) (m := { k.sem s with semcnt := 0 + 1 }) rfl
    refine ⟨trivial, ⟨h.rcv_le, h.snd_le, fun s' _ => ?_, nofun,
      fun s' u => hsq s' ▸ h.wait s' u, fun s' => hsq s' ▸ h.nodup s', h.task⟩, fun _ _ => rfl⟩
    by_cases hss : s' = s
    · subst hss
      rw [setSem_sem]
      change Token (k.spcb.avail ini s') _ (k.sem s').waitQueue _
      rw [ha, hq, ← hd.cnt]
      exact hd.free
    · rw [setSem_sem_of_ne k _ hss]
      exact h.token s' fun he => hss (Option.some.inj he).symm
  | cons u q =>
    obtain ⟨hux, f, hf⟩ := (h.wait s u).1 (hq ▸ List.mem_cons_self)
    have h1 := (h.unqueue hf).take List.mem_cons_self
    rw [hq, List.erase_cons_head] at h1
    have hok := h.task u hux
    rw [hf] at hok
    have hp := own_hold (k.setSem s { k.sem s with waitQueue := q }) s u true ▸ hok.2.1
    simp only [hf]
    refine ⟨trivial, h1.goto hux hp, fun t ht => ?_⟩
    have htu : t ≠ u := fun he => hux (he ▸ ht)
    unfold Sys.own
    rw [goto_held hp]
    exact own_hold_of_ne _ s true htu

theorem avail_congr {p q : SPCB δ} (hr : p.rcvCount = q.rcvCount) (hs : p.sndCount = q.sndCount) :
    p.avail ini = q.avail ini := by
  funext s
  cases s with
  | rcv => exact congrArg (fun n => decide (0 < n)) hr
  | snd => exact congrArg (fun n => decide (n < ini.sndBufsz)) hs

/-- The attempt to send a character changes the SIO port only. -/
theorem serialSndChr_eq (D : Sio δ) (p : SPCB δ) (c : Char) :
    ∃ b d, p.serialSndChr D c = (b, { p with siopcb := d }) := by
  unfold SPCB.serialSndChr
  simp only
  split
  · exact ⟨_, _, rfl⟩
  · exact ⟨_, _, rfl⟩

theorem wriChr_counts (p : SPCB δ) (c : Char) (h : p.sndCount < ini.sndBufsz) :
    (p.wriChr D ini c).2.rcvCount = p.rcvCount ∧
    ((p.wriChr D ini c).1 = false ∧ (p.wriChr D ini c).2.sndCount < ini.sndBufsz ∨
      (p.wriChr D ini c).1 = true ∧ (p.wriChr D ini c).2.sndCount = ini.sndBufsz) := by
  have hlt := ini.snd_lt
  have hinc : inc p.sndCount = p.sndCount + 1 := Nat.mod_eq_of_lt (by omega)
  have hput : (inc p.sndCount == ini.sndBufsz) = false ∧ inc p.sndCount < ini.sndBufsz ∨
      (inc p.sndCount == ini.sndBufsz) = true ∧ inc p.sndCount = ini.sndBufsz := by
    rw [hinc, beq_eq_false_iff_ne, beq_iff_eq]
    omega
  obtain ⟨b, d, hd⟩ := serialSndChr_eq D p c
  unfold SPCB.wriChr
  simp only [hd]
  split
  · cases b with
    | true => exact ⟨rfl, .inl ⟨rfl, h⟩⟩
    | false => exact ⟨rfl, hput⟩
  · exact ⟨rfl, hput⟩

theorem reaChr_counts (p : SPCB δ) (h0 : 0 < p.rcvCount) (h : p.rcvCount ≤ ini.rcvBufsz) :
    (p.reaChr D ini).2.sndCount = p.sndCount ∧
    (p.reaChr D ini).2.rcvCount = p.rcvCount - 1 ∧
    (p.reaChr D ini).1.2 = decide (p.rcvCount - 1 = 0) := by
  have hlt := ini.rcv_lt
  have hdec : dec p.rcvCount = p.rcvCount - 1 := by
    unfold dec
    omega
  unfold SPCB.reaChr
  obtain ⟨b, d, hd⟩ := serialSndChr_eq D { p with
    rcvReadPtr := incPtr p.rcvReadPtr ini.rcvBufsz, rcvCount := dec p.rcvCount } FC_START
  simp only [hd]
  split
  · exact ⟨rfl, hdec, by rw [hdec]; rfl⟩
  · exact ⟨rfl, hdec, by rw [hdec]; rfl⟩

/-- What a callback does to the conditions: the semaphore of the buffer that is no more empty, or no
more full, is signaled. -/
structure Signals (ini : SPINIB) (p : SPCB δ) (r : SPCB δ × Option SemId) : Prop where
  rcv_le : r.1.rcvCount ≤ ini.rcvBufsz
  snd_le : r.1.sndCount ≤ ini.sndBufsz
  met : ∀ s, r.2 = some s → p.avail ini s = false ∧ r.1.avail ini s = true
  same : ∀ s, r.2 ≠ some s → r.1.avail ini s = p.avail ini s

theorem Signals.none {p q : SPCB δ} (hr : p.rcvCount ≤ ini.rcvBufsz)
    (hs : p.sndCount ≤ ini.sndBufsz) (hr' : q.rcvCount = p.rcvCount)
    (hs' : q.sndCount = p.sndCount) : Signals ini p (q, none) :=
  ⟨hr' ▸ hr, hs' ▸ hs, fun _ => nofun, fun s _ => congrFun (avail_congr hr' hs') s⟩

theorem sent_signals {p q : SPCB δ} (hr : p.rcvCount ≤ ini.rcvBufsz)
    (hs : p.sndCount ≤ ini.sndBufsz) (h0 : 0 < p.sndCount) (hr' : q.rcvCount = p.rcvCount)
    (hs' : q.sndCount = p.sndCount) : Signals ini p (SPCB.sent ini q) := by
  have hlt := ini.snd_lt
  have hdec : dec q.sndCount = p.sndCount - 1 := by
    unfold dec
    omega
  have hav : (SPCB.sent ini q).1.avail ini .snd = true := by
    change decide (dec q.sndCount < ini.sndBufsz) = true
    rw [hdec]
    exact decide_eq_true (by omega)
  have hfull : p.avail ini .snd = decide (p.sndCount < ini.sndBufsz) := rfl
  refine ⟨hr' ▸ hr, ?_, fun s he => ?_, fun s he => ?_⟩
  · change dec q.sndCount ≤ _
    omega
  · unfold SPCB.sent at he
    split at he
    · cases he
      exact ⟨hfull.trans (decide_eq_false (by omega)), hav⟩
    · cases he
  · cases s with
    | rcv => exact congrArg (fun n => decide (0 < n)) hr'
    | snd =>
      unfold SPCB.sent at he
      split at he
      · exact absurd rfl he
      · exact hav.trans (hfull.trans (decide_eq_true (by omega))).symm

theorem irdySnd_signals (p : SPCB δ) (hr : p.rcvCount ≤ ini.rcvBufsz)
    (hs : p.sndCount ≤ ini.sndBufsz) : Signals ini p (p.irdySnd D ini) := by
  unfold SPCB.irdySnd
  split
  · exact .none hr hs rfl rfl
  · split
    · rename_i h
      exact sent_signals hr hs h.2 rfl rfl
    · exact .none hr hs rfl rfl

theorem irdyRcv_signals (p : SPCB δ) (c : Char) (hr : p.rcvCount ≤ ini.rcvBufsz)
    (hs : p.sndCount ≤ ini.sndBufsz) : Signals ini p (p.irdyRcv D ini c) := by
  have hlt := ini.rcv_lt
  unfold SPCB.irdyRcv
  split
  · exact .none hr hs rfl rfl
  split
  · simp only
    split
    · rename_i h0
      obtain ⟨b, d, hd⟩ := serialSndChr_eq D { p with sndStopped := false }
        (p.sndBuffer p.sndReadPtr)
      rw [hd]
      cases b with
      | true => exact sent_signals hr hs h0 rfl rfl
      | false => exact .none hr hs rfl rfl
    · exact .none hr hs rfl rfl
  split
  · exact .none hr hs rfl rfl
  split
  · exact .none hr hs rfl rfl
  · rename_i hn
    have hinc : inc p.rcvCount = p.rcvCount + 1 := Nat.mod_eq_of_lt (by omega)
    -- the character is stored; whether STOP is sent does not matter to the semaphores
    have hst {q : SPCB δ} (hq : q.rcvCount = p.rcvCount + 1) (hq' : q.sndCount = p.sndCount) :
        Signals ini p (q, if p.rcvCount = 0 then some .rcv else none) := by
      have hav : q.avail ini .rcv = true := decide_eq_true (by omega)
      refine ⟨by rw [hq]; omega, hq' ▸ hs, fun s he => ?_, fun s he => ?_⟩
      · split at he
        · cases he
          exact ⟨decide_eq_false (by omega), hav⟩
        · cases he
      · cases s with
        | rcv =>
          split at he
          · exact absurd rfl he
          · exact hav.trans (decide_eq_true (by omega)).symm
        | snd => exact congrArg (fun n => decide (n < ini.sndBufsz)) hq'
    simp only
    split
    · obtain ⟨b, d, hd⟩ := serialSndChr_eq D { p with
        rcvBuffer := Function.update p.rcvBuffer p.rcvWritePtr c
        rcvWritePtr := incPtr p.rcvWritePtr ini.rcvBufsz
        rcvCount := inc p.rcvCount } FC_STOP
      rw [hd]
      exact hst hinc rfl
    · exact hst hinc rfl

theorem Sys.Ok.callback (h : k.Ok ini [] none) (hr : Signals ini k.spcb r) :
    (k.callback r).Ok ini [] none := by
  obtain ⟨p, s⟩ := r
  cases s with
  | none => exact h.spcb hr.rcv_le hr.snd_le (funext fun s => hr.same s nofun)
  | some s =>
    obtain ⟨ha, ha'⟩ := hr.met s rfl
    have h1 := h.met hr.rcv_le hr.snd_le ha ha' fun s' hs =>
      hr.same s' fun he => hs (Option.some.inj he).symm
    obtain ⟨he, hok, -⟩ := h1.signal
    unfold Sys.callback
    simp only [he]
    exact hok

/-- The signal of a callback succeeds. -/
theorem Sys.Ok.signal_callback (h : k.Ok ini [] none) (hr : Signals ini k.spcb r)
    (hs : r.2 = some s) : ({ k with spcb := r.1 }.signal s).1 = E_OK := by
  obtain ⟨ha, ha'⟩ := hr.met s hs
  exact (h.met hr.rcv_le hr.snd_le ha ha' fun s' hne =>
    hr.same s' fun he => hne (Option.some.inj (hs.symm.trans he)).symm).signal.1

/-- A task acquires a semaphore. -/
theorem Sys.Ok.acquire (h : k.Ok ini [] none) (ht : k.task t = .run q) (hn : 0 < (k.sem s).semcnt)
    (hp : p.wp rules ((k.own t).set true s) Done) :
    (((k.setSem s { k.sem s with semcnt := (k.sem s).semcnt - 1 }).hold s t true).goto t p).Ok
      ini [] none := by
  have hsq := setSem_queue (k := k) (s := s)
    (m := { k.sem s with semcnt := (k.sem s).semcnt - 1 }) rfl
  have hx := h.aside ht
  have h1 : ((k.setSem s { k.sem s with semcnt := (k.sem s).semcnt - 1 }).hold s t true).Ok
      ini [t] none := by
    refine ⟨h.rcv_le, h.snd_le, fun s' _ => ?_, nofun, fun s' u => ?_, fun s' => ?_,
      fun u hu => ?_⟩
    · by_cases hss : s' = s
      · subst hss
        rw [hold_held]
        change Token _ ((k.setSem s' _).sem s').semcnt ((k.setSem s' _).sem s').waitQueue _
        rw [setSem_sem]
        exact (h.token s' nofun).take hn t
      · rw [hold_held_of_ne _ t true hss]
        change Token _ ((k.setSem s _).sem s').semcnt ((k.setSem s _).sem s').waitQueue _
        rw [setSem_sem_of_ne k _ hss]
        exact h.token s' nofun
    · exact hsq s' ▸ hx.wait s' u
    · exact hsq s' ▸ h.nodup s'
    · rw [own_hold_of_ne _ s true fun he => hu (List.mem_singleton.2 he)]
      exact h.task u List.not_mem_nil
  exact h1.goto List.not_mem_nil (own_hold _ s t true ▸ hp)

/-- A task starts to wait for a semaphore. -/
theorem Sys.Ok.block (h : k.Ok ini [] none) (ht : k.task t = .run p)
    (hn : ¬ 0 < (k.sem s).semcnt) (hf : (Task.wait s f).Ok (k.own t)) :
    { k.setSem s { k.sem s with waitQueue := (k.sem s).waitQueue ++ [t] } with
      task := Function.update k.task t (.wait s f) }.Ok ini [] none := by
  have hx := h.aside ht
  have hq {s' u} : u ∈ ((k.setSem s { k.sem s with
      waitQueue := (k.sem s).waitQueue ++ [t] }).sem s').waitQueue ↔
      u ∈ (k.sem s').waitQueue ∨ s' = s ∧ u = t := by
    by_cases hss : s' = s
    · subst hss
      rw [setSem_sem, List.mem_append, List.mem_singleton, and_iff_right rfl]
    · rw [setSem_sem_of_ne k _ hss, or_iff_left fun h => hss h.1]
  have htq (s') : t ∉ (k.sem s').waitQueue := fun hm =>
    ((hx.wait s' t).1 hm).1 List.mem_cons_self
  refine ⟨h.rcv_le, h.snd_le, fun s' _ => ?_, nofun, fun s' u => hq.trans ?_, fun s' => ?_,
    fun u _ => ?_⟩
  · by_cases hss : s' = s
    · subst hss
      change Token _ ((k.setSem s' _).sem s').semcnt ((k.setSem s' _).sem s').waitQueue _
      have hk := h.token s' nofun
      rw [Nat.eq_zero_of_not_pos hn] at hk
      rw [setSem_sem]
      change Token _ (k.sem s').semcnt _ _
      rw [Nat.eq_zero_of_not_pos hn]
      exact hk.enqueue _
    · change Token _ ((k.setSem s _).sem s').semcnt ((k.setSem s _).sem s').waitQueue _
      rw [setSem_sem_of_ne k _ hss]
      exact h.token s' nofun
  · change _ ↔ _ ∧ ∃ f', Function.update k.task t _ u = _
    by_cases hut : u = t
    · subst hut
      rw [Function.update_self, or_iff_right (htq s')]
      refine ⟨fun hs => ⟨List.not_mem_nil, f, hs.1 ▸ rfl⟩, fun hs => ?_⟩
      obtain ⟨-, f', hf'⟩ := hs
      cases hf'
      exact ⟨rfl, rfl⟩
    · rw [Function.update_of_ne hut, or_iff_left fun h => hut h.2]
      exact h.wait s' u
  · change ((k.setSem s _).sem s').waitQueue.Nodup
    by_cases hss : s' = s
    · subst hss
      rw [setSem_sem]
      refine List.nodup_append.2 ⟨h.nodup s', List.nodup_singleton t, fun a ha b hb => ?_⟩
      rw [List.mem_singleton.1 hb]
      exact fun he => htq s' (he ▸ ha)
    · rw [setSem_sem_of_ne k _ hss]
      exact h.nodup s'
  · change (Function.update k.task t _ u).Ok (k.own u)
    by_cases hut : u = t
    · subst hut
      rw [Function.update_self]
      exact hf
    · rw [Function.update_of_ne hut]
      exact h.task u List.not_mem_nil

/-- A task that holds the semaphore of a buffer uses it: the task holds it as long as the condition
is met. -/
theorem Sys.Ok.use {p : SPCB δ} (h : k.Ok ini x none) (ht : t ∈ x) (hh : k.held s t = true)
    (hr : p.rcvCount ≤ ini.rcvBufsz) (hs : p.sndCount ≤ ini.sndBufsz)
    (hn : ∀ s' ≠ s, p.avail ini s' = k.spcb.avail ini s') :
    ({ k with spcb := p }.hold s t (p.avail ini s)).Ok ini x none := by
  cases ha : p.avail ini s with
  | false => exact (h.drop ht hh).unmet hr hs ha hn
  | true =>
    have hav := ((h.token s nofun).held hh).1
    have heq : { k with spcb := p }.hold s t true = { k with spcb := p } := by
      unfold Sys.hold
      rw [show Function.update (k.held s) t true = k.held s from
        Function.update_eq_self_iff.2 hh.symm, Function.update_eq_self]
    rw [heq]
    refine h.spcb hr hs (funext fun s' => ?_)
    by_cases hss : s' = s
    · rw [hss, ha, hav]
    · exact hn s' hss

/-- An operation of a task. -/
theorem Sys.Ok.exec (h : k.Ok ini [] none) (ht : k.task t = .run (.call op f)) :
    (k.exec D ini t op f).Ok ini [] none := by
  have hx := h.aside ht
  obtain ⟨⟨-, hpre⟩, hpost⟩ := h.run ht
  cases op with
  | openflag => exact hx.goto List.not_mem_nil (hpost _ _ rfl)
  | errorflag => exact hx.goto List.not_mem_nil (hpost _ _ rfl)
  | ioctl => exact hx.goto List.not_mem_nil (hpost _ _ rfl)
  | setErrorflag =>
    exact (hx.spcb (p := { k.spcb with errorflag := true }) h.rcv_le h.snd_le rfl).goto
      List.not_mem_nil (hpost () _ rfl)
  | waiSem s =>
    have hw := hpost E_OK _ (.inl ⟨rfl, rfl⟩)
    simp only [Sys.exec]
    split
    · rename_i hn
      exact h.acquire ht hn hw
    · rename_i hn
      exact h.block ht hn ⟨hpre, hw, hpost E_RLWAI _ (.inr ⟨rfl, rfl⟩)⟩
  | sigSem s =>
    obtain ⟨he, h1, hown⟩ := (hx.drop List.mem_cons_self ((own_held k t s).symm.trans hpre)).signal
    have hw := hpost E_OK _ ⟨rfl, rfl⟩
    simp only [Sys.exec, he]
    refine h1.goto List.not_mem_nil ?_
    rw [hown t List.mem_cons_self, own_hold]
    exact hw
  | wriChr c =>
    have hs := of_decide_eq_true ((h.token .snd nofun).held hpre).1
    obtain ⟨hr, hc⟩ := wriChr_counts (D := D) k.spcb c hs
    have hw := hpost (k.spcb.wriChr D ini c).1 _ rfl
    have hav : (k.spcb.wriChr D ini c).2.avail ini .snd = !(k.spcb.wriChr D ini c).1 := by
      change decide ((k.spcb.wriChr D ini c).2.sndCount < ini.sndBufsz) = _
      rcases hc with ⟨hb, hc⟩ | ⟨hb, hc⟩
      · rw [hb]
        exact decide_eq_true hc
      · rw [hb, hc]
        exact decide_eq_false (Nat.lt_irrefl _)
    have h1 := hx.use (s := .snd) List.mem_cons_self hpre (hr ▸ h.rcv_le)
      (hc.elim (fun h => h.2.le) fun h => h.2.le) fun s' hs' => by
        cases s' with
        | rcv => exact congrArg (fun n => decide (0 < n)) hr
        | snd => exact absurd rfl hs'
    rw [hav] at h1
    exact h1.goto List.not_mem_nil (own_hold _ .snd t _ ▸ hw)
  | reaChr =>
    have h0 := of_decide_eq_true ((h.token .rcv nofun).held hpre).1
    obtain ⟨hs, hr, he⟩ := reaChr_counts (D := D) k.spcb h0 h.rcv_le
    have hw := hpost (k.spcb.reaChr D ini).1 _ rfl
    have hav : (k.spcb.reaChr D ini).2.avail ini .rcv = !(k.spcb.reaChr D ini).1.2 := by
      change decide (0 < (k.spcb.reaChr D ini).2.rcvCount) = _
      rw [he, hr, ← decide_not]
      exact decide_eq_decide.2 Nat.pos_iff_ne_zero
    have h1 := hx.use (s := .rcv) List.mem_cons_self hpre
      (hr ▸ (Nat.sub_le ..).trans h.rcv_le) (hs ▸ h.snd_le) fun s' hs' => by
        cases s' with
        | rcv => exact absurd rfl hs'
        | snd => exact congrArg (fun n => decide (n < ini.sndBufsz)) hs
    rw [hav] at h1
    exact h1.goto List.not_mem_nil (own_hold _ .rcv t _ ▸ hw)

/-- The event ends no wait of a task that holds the receive semaphore. -/
def Event.keepsRcv (k : Sys δ) : Event → Bool
  | .relWai t => !k.held .rcv t
  | _ => true

theorem Sys.Ok.start (h : k.Ok ini [] none) (ht : k.task t = .run (.ret a))
    (hp : p.wp rules ⟨false, false, false⟩ Done) : (k.goto t p).Ok ini [] none := by
  obtain ⟨hs, hr⟩ := h.run ht
  refine (h.aside ht).goto List.not_mem_nil ?_
  unfold Sys.own at hs hr ⊢
  rw [show k.held .snd t = false from hs, show k.held .rcv t = false from hr]
  exact hp

theorem Sys.Ok.step (h : k.Ok ini [] none) (hk : e.keepsRcv k = true)
    (he : k.step D ini e = some k') : k'.Ok ini [] none := by
  cases e with
  | serialReaDat t len =>
    simp only [Sys.step] at he
    split at he
    · rename_i ht
      cases he
      exact h.start ht (wp_serialReaDat len)
    · cases he
  | serialWriDat t buf =>
    simp only [Sys.step] at he
    split at he
    · rename_i ht
      cases he
      exact h.start ht (Prog.wp.bind ((wp_serialWriDat buf).mono fun _ _ hd => hd))
    · cases he
  | serialCtlPor ioctl =>
    cases he
    split
    · exact h
    · exact h.spcb h.rcv_le h.snd_le rfl
  | run t =>
    simp only [Sys.step] at he
    split at he
    · rename_i ht
      cases he
      exact h.exec ht
    · cases he
  | relWai t =>
    simp only [Sys.step] at he
    split at he
    · rename_i s f ht
      cases he
      have hok := h.task t List.not_mem_nil
      rw [ht] at hok
      refine (h.unqueue ht).goto List.not_mem_nil ?_
      have hr : k.held .rcv t = false := Bool.not_eq_true' _ ▸ hk
      have hw := hok.2.2
      rw [show (k.own t).rcv = false from hr] at hw
      change Prog.wp rules _ (k.own t) Done
      unfold Sys.own
      rw [hr]
      exact hw
    · cases he
  | reorder s q =>
    simp only [Sys.step] at he
    split at he
    · rename_i hq
      cases he
      have hm {s'} : ((k.setSem s { k.sem s with waitQueue := q }).sem s').waitQueue.Perm
          (k.sem s').waitQueue := by
        by_cases hss : s' = s
        · subst hss
          rw [setSem_sem]
          exact hq
        · rw [setSem_sem_of_ne k _ hss]
      refine ⟨h.rcv_le, h.snd_le, fun s' _ => ?_, nofun, fun s' u => hm.mem_iff.trans (h.wait s' u),
        fun s' => hm.nodup_iff.2 (h.nodup s'), h.task⟩
      by_cases hss : s' = s
      · subst hss
        rw [setSem_sem]
        exact (h.token s' nofun).perm fun hn => (hn ▸ hq).eq_nil
      · rw [setSem_sem_of_ne k _ hss]
        exact h.token s' nofun
    · cases he
  | irdyRcv c =>
    cases he
    exact h.callback (irdyRcv_signals k.spcb c h.rcv_le h.snd_le)
  | irdySnd =>
    simp only [Sys.step] at he
    split at he
    · cases he
      exact h.callback (irdySnd_signals k.spcb h.rcv_le h.snd_le)
    · cases he
  | tick =>
    cases he
    exact h.spcb h.rcv_le h.snd_le rfl

theorem opened_ok (p : SPCB δ) (d : δ) : (Sys.opened p d).Ok ini [] none := by
  refine ⟨Nat.zero_le _, Nat.zero_le _, fun s _ => ?_, nofun, fun s t => ?_, fun s => ?_,
    fun t _ => ⟨rfl, rfl⟩⟩
  · cases s with
    | rcv => exact (Token.Due.mk rfl fun _ => rfl).unmet []
    | snd =>
      rw [show ((Sys.opened p d).spcb.avail ini .snd) = true from decide_eq_true ini.snd_pos]
      exact (Token.Due.mk rfl fun _ => rfl).free
  · cases s with
    | rcv => exact ⟨nofun, nofun⟩
    | snd => exact ⟨nofun, nofun⟩
  · cases s with
    | rcv => exact List.nodup_nil
    | snd => exact List.nodup_nil

/-- While no task holds the receive semaphore, it is free exactly when there are characters, and
then no task waits for it. -/
def RcvSem (k : Sys δ) : Prop :=
  (∀ t, k.held .rcv t = false) → ((k.sem .rcv).semcnt = 1 ↔ 0 < k.spcb.rcvCount) ∧
    (0 < k.spcb.rcvCount → (k.sem .rcv).waitQueue = [])

theorem Sys.Ok.rcvSem (h : k.Ok ini [] none) : RcvSem k := by
  intro hh
  obtain ⟨h1, h2⟩ := (h.token .rcv nofun).idle hh
  exact ⟨h1.trans decide_eq_true_iff, fun h0 => h2 (decide_eq_true h0)⟩

/-- A task whose wait is ended while it holds the receive semaphore leaves the call with it. -/
theorem Sys.Ok.lost (h : k.Ok ini [] none) (ht : k.held .rcv t = true)
    (he : k.step D ini (.relWai t) = some k') : ¬ RcvSem k' := by
  simp only [Sys.step] at he
  split at he
  · rename_i s f hf
    cases he
    have hok := h.task t List.not_mem_nil
    rw [hf] at hok
    obtain ⟨hs, -, hrl⟩ := hok
    have hr : (k.own t).rcv = true := ht
    obtain rfl : s = .snd := by
      cases s with
      | rcv => exact absurd (hs.symm.trans hr) Bool.false_ne_true
      | snd => rfl
    obtain ⟨ha, hn⟩ := (h.token .rcv nofun).held ht
    intro hrs
    have hheld : ∀ u, ((k.setSem .snd { k.sem .snd with
        waitQueue := (k.sem .snd).waitQueue.erase t }).goto t (f E_RLWAI)).held .rcv u = false := by
      intro u
      cases hfe : f E_RLWAI with
      | call op g =>
        rw [hfe] at hrl
        exact absurd (hr.symm.trans hrl.1.1) (Bool.false_ne_true ∘ Eq.symm)
      | ret a =>
        change Function.update (k.held .rcv) t false u = false
        by_cases hut : u = t
        · rw [hut, Function.update_self]
        · rw [Function.update_of_ne hut]
          cases hu : k.held .rcv u with
          | false => rfl
          | true => exact absurd ((h.token .rcv nofun).uniq hu ht) hut
    have h1 : (k.sem .rcv).semcnt = 1 := (hrs hheld).1.2 (of_decide_eq_true ha)
    exact Nat.zero_ne_one (hn.symm.trans h1)
  · cases he

theorem Sys.Ok.step_rcvSem (h : k.Ok ini [] none) (he : k.step D ini e = some k') :
    RcvSem k' ↔ e.keepsRcv k = true := by
  refine ⟨fun hr => ?_, fun hk => (h.step hk he).rcvSem⟩
  cases e with
  | relWai t =>
    cases ht : k.held .rcv t with
    | false => exact congrArg (!·) ht
    | true => exact absurd hr (h.lost ht he)
  | _ => rfl

/-- The receive semaphore stands for a receive buffer that is not empty, in every run that ends no
wait of a task while it holds the semaphore; and a step that does so breaks it. -/
theorem reachable_rcvSem (D : Sio δ) (ini : SPINIB) (p : SPCB δ) (d : δ)
    (h : Trans.Run (fun k e k' => k.step D ini e = some k' ∧ e.keepsRcv k = true)
      (Sys.opened p d) es k) :
    ((∀ t, k.held .rcv t = false) → ((k.sem .rcv).semcnt = 1 ↔ 0 < k.spcb.rcvCount) ∧
      (0 < k.spcb.rcvCount → (k.sem .rcv).waitQueue = [])) ∧
    (∀ t f, k.task t = .wait .rcv f → 0 < k.spcb.rcvCount → ∃ u, k.held .rcv u = true) ∧
    (∀ t f, k.task t = .run (.call .reaChr f) → 0 < k.spcb.rcvCount) ∧
    (∀ c, (k.spcb.irdyRcv D ini c).2 = some .rcv →
      ({ k with spcb := (k.spcb.irdyRcv D ini c).1 }.signal .rcv).1 = E_OK) ∧
    (k.sem .rcv).semcnt ≤ 1 ∧ k.spcb.rcvCount ≤ ini.rcvBufsz ∧
    ∀ e k', k.step D ini e = some k' → (RcvSem k' ↔ e.keepsRcv k = true) := by
  have hok : k.Ok ini [] none :=
    h.invariant (fun _ _ _ hk he => hk.step he.2 he.1) (opened_ok p d)
  have htok := hok.token .rcv nofun
  refine ⟨hok.rcvSem, fun t f ht h0 => ?_, fun t f ht => ?_, fun c hc => ?_, htok.le_one,
    hok.rcv_le, fun _ _ => hok.step_rcvSem⟩
  · by_contra hn
    have hq := (hok.rcvSem fun u => Bool.eq_false_iff.2 fun hu => hn ⟨u, hu⟩).2 h0
    have hm := (hok.wait .rcv t).2 ⟨List.not_mem_nil, f, ht⟩
    rw [hq] at hm
    exact List.not_mem_nil hm
  · exact of_decide_eq_true (htok.held (hok.run ht).1.2).1
  · exact hok.signal_callback (irdyRcv_signals k.spcb c hok.rcv_le hok.snd_le) hc

theorem reachable_rcvSem_received :
    ((Sys.first.callback (Sys.first.spcb.irdyRcv Register.sio .default 0x61)).sem
      .rcv).semcnt = 1 :=
  ((reachable_rcvSem Register.sio .default (.cleared ⟨false, false⟩) ⟨false, false⟩
    (.one (e := .irdyRcv 0x61) ⟨rfl, rfl⟩)).1 fun _ => rfl).1.2 (by decide)

/-- Task 1 reads one of two characters and waits in the echo while task 2 writes; its wait is
ended. -/
theorem rcvSem_lost : ∃ k, [Event.irdyRcv 0x61, .irdyRcv 0x62, .serialReaDat 1 2, .run 1, .run 1,
    .run 1, .run 1, .serialWriDat 2 [0x63], .run 2, .run 2, .run 2, .run 1, .run 1,
    .relWai 1].foldlM (Sys.step Register.sio .default) .first = some k ∧ ¬ RcvSem k := by
  have h : ([Event.irdyRcv 0x61, .irdyRcv 0x62, .serialReaDat 1 2, .run 1, .run 1,
      .run 1, .run 1, .serialWriDat 2 [0x63], .run 2, .run 2, .run 2, .run 1, .run 1].foldlM
        (Sys.step Register.sio .default) .first).any (fun k =>
      k.held .rcv 1 && (k.step Register.sio .default (.relWai 1)).isSome) = true := by
    decide +kernel
  obtain ⟨k, hk, h⟩ := (Option.any_eq_true _ _).1 h
  obtain ⟨hheld, hs⟩ := Bool.and_eq_true_iff.1 h
  obtain ⟨k', hk'⟩ := Option.isSome_iff_exists.1 hs
  have hr : Trans.Run (fun (k : Sys Register) (e : Event) k' =>
      k.step Register.sio .default e = some k' ∧ e.keepsRcv k = true) _ _ _ :=
    (Trans.Run.of_foldlM hk).restrict (P := fun e => ∀ k : Sys Register, e.keepsRcv k = true)
      (fun _ _ _ hp he => ⟨he, hp _⟩) (by simp [Event.keepsRcv])
  have hok : k.Ok .default [] none :=
    hr.invariant (fun _ _ _ hk he => hk.step he.2 he.1) (opened_ok _ _)
  refine ⟨k', ?_, hok.lost hheld hk'⟩
  exact (Trans.Run.snoc (Trans.Run.of_foldlM hk) hk').foldlM

end

end AspKernel.Serial
