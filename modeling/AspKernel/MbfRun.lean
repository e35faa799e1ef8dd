import AspKernel.MbfCall

/-! The runs of a system with message buffers. -/

namespace AspKernel.Mbf
set_option autoImplicit true

/-- The call to send that an event makes. -/
def Event.asks : Event → Nat → List (Nat × List Byte)
  | .call me (.sndMbf mbfid msg), t => ask me (index mbfid) msg t
  | .call me (.psndMbf mbfid msg), t => ask me (index mbfid) msg t
  | .call me (.tsndMbf mbfid msg _), t => ask me (index mbfid) msg t
  | _, _ => []

/-- The call to receive that it makes. -/
def Event.receives : Event → Option (ID × TMO)
  | .call _ (.rcvMbf mbfid) => some (mbfid, TMO_FEVR)
  | .call _ (.prcvMbf mbfid) => some (mbfid, TMO_POL)
  | .call _ (.trcvMbf mbfid tmo) => some (mbfid, tmo)
  | _ => none

/-- The task whose priority it sets. -/
def Event.moves : Event → Option Nat
  | .call me (.chgPri tskid _) => some (if tskid = TSK_SELF then me else index tskid)
  | _ => none

/-- It initialises the buffer. -/
def Event.inits (cfg : Cfg) : Event → Nat → Prop
  | .call _ (.iniMbf mbfid), b => K.validMbfid cfg mbfid = true ∧ b = index mbfid
  | _, _ => False

/-- It takes a message directly from the first sender, and the next one could proceed. -/
def Event.strands (cfg : Cfg) (k : K) (e : Event) (b : Nat) : Prop :=
  ∃ mbfid tmout, e.receives = some (mbfid, tmout) ∧ K.validMbfid cfg mbfid = true ∧
    validTmout tmout = true ∧ b = index mbfid ∧ k.Stranded b

theorem tsndMbf_acted (h : Inv cfg [] k) (hme : (k.tcb me).tstat = .runnable) (mbfid : ID)
    (msg : List Byte) (tmout : TMO) :
    ∃ out, k.tsndMbf cfg me mbfid msg tmout = some out ∧
      Acted cfg none k out.2 (ask me (index mbfid) msg) (fun _ => False) fun _ => False := by
  unfold K.tsndMbf
  by_cases hid : K.validMbfid cfg mbfid = true
  · by_cases htm : validTmout tmout = true
    · by_cases hp : 0 < msg.length ∧ msg.length ≤ (cfg.mbfinib (index mbfid)).maxmsz
      · simp only [hid, htm, hp, Bool.not_true, Bool.false_eq_true, ↓reduceIte, and_self,
          decide_true]
        cases hr : k.rwaits (index mbfid) with
        | cons t q =>
          obtain ⟨k', hs, ha⟩ := sendMessage_hand h hme hr msg
          simp only [hs, Option.bind_eq_bind, Option.bind_some, ↓reduceIte]
          exact ⟨_, rfl, ha⟩
        | nil =>
          rcases sendMessage_store h hme hp.1 hp.2 hr with ⟨k', hs, ha⟩ | ⟨hs, hf⟩
          · simp only [hs, Option.bind_eq_bind, Option.bind_some, ↓reduceIte]
            exact ⟨_, rfl, ha⟩
          · simp only [hs, Option.bind_eq_bind, Option.bind_some, Bool.false_eq_true, ↓reduceIte]
            by_cases ht : tmout = TMO_POL
            · rw [if_pos ht]
              exact ⟨_, rfl, sendError_acted h hme _⟩
            · rw [if_neg ht]
              exact ⟨_, rfl, makeWaitSmbf_acted h hme hp.1 hp.2 hr hf⟩
      · simp only [hid, htm, hp, Bool.not_true, Bool.false_eq_true, ↓reduceIte, decide_false,
          Bool.not_false]
        exact ⟨_, rfl, sendError_acted h hme _⟩
    · simp only [hid, htm, Bool.not_true, Bool.false_eq_true, ↓reduceIte, Bool.not_false]
      exact ⟨_, rfl, sendError_acted h hme _⟩
  · simp only [hid, Bool.not_false, ↓reduceIte]
    exact ⟨_, rfl, sendError_acted h hme _⟩

/-- The senders that an event leaves behind are those that it is said to. -/
theorem Acted.congr (h : Acted cfg m k k' a S I) (hs : ∀ b, S b ↔ S' b) :
    Acted cfg m k k' a S' I := by
  have he : S = S' := funext fun b => propext (hs b)
  exact he ▸ h

theorem trcvMbf_acted (h : Inv cfg [] k) (hme : (k.tcb me).tstat = .runnable) (mbfid : ID)
    (tmout : TMO) :
    ∃ out, k.trcvMbf cfg me mbfid tmout = some out ∧
      Acted cfg none k out.2 (fun _ => []) (fun b => K.validMbfid cfg mbfid = true ∧
        validTmout tmout = true ∧ b = index mbfid ∧ k.Stranded b) fun _ => False := by
  unfold K.trcvMbf
  by_cases hid : K.validMbfid cfg mbfid = true
  · by_cases htm : validTmout tmout = true
    · simp only [hid, htm, Bool.not_true, Bool.false_eq_true, ↓reduceIte]
      by_cases hn : 0 < (k.mbfcb (index mbfid)).smbfcnt
      · obtain ⟨msg, k', hr, ha⟩ := receiveMessage_stored h hn me
        simp only [hr, Option.bind_eq_bind, Option.bind_some]
        refine ⟨_, rfl, ha.congr fun b => ⟨False.elim, fun hs => ?_⟩⟩
        rw [hs.2.2.1] at hs
        exact absurd hs.2.2.2.1 (Nat.ne_of_gt hn)
      · have h0 := Nat.eq_zero_of_not_pos hn
        cases hq : k.swaits (index mbfid) with
        | cons t q =>
          obtain ⟨k', hr, ha⟩ := receiveMessage_direct h h0 hq me
          simp only [hr, Option.bind_eq_bind, Option.bind_some]
          refine ⟨_, rfl, ha.congr fun b => ⟨fun hs => ⟨trivial, trivial, hs.1, hs.1 ▸ hs.2⟩,
            fun hs => ⟨hs.2.2.1, hs.2.2.1 ▸ hs.2.2.2⟩⟩⟩
        | nil =>
          have hq' : (k.mbfcb (index mbfid)).swaitQueue = [] := hq
          have hr : k.receiveMessage cfg me (index mbfid) = some (none, k) := by
            simp only [K.receiveMessage, hn, ↓reduceIte, hq']
          have hS (b) (hs : True ∧ True ∧ b = index mbfid ∧ k.Stranded b) : False := by
            obtain ⟨-, -, rfl, -, t, u, q, hs, -⟩ := hs
            rw [hq] at hs
            cases hs
          simp only [hr, Option.bind_eq_bind, Option.bind_some]
          by_cases ht : tmout = TMO_POL
          · rw [if_pos ht]
            exact ⟨_, rfl, (receiveError_acted h _).congr fun b => ⟨False.elim, fun hs =>
              hS b ⟨trivial, trivial, hs.2.2⟩⟩⟩
          · rw [if_neg ht]
            exact ⟨_, rfl, (makeWaitRmbf_acted h hme hq h0).congr fun b => ⟨False.elim, fun hs =>
              hS b ⟨trivial, trivial, hs.2.2⟩⟩⟩
    · simp only [hid, htm, Bool.not_true, Bool.false_eq_true, ↓reduceIte, Bool.not_false]
      exact ⟨_, rfl, (receiveError_acted h _).congr fun b => ⟨False.elim, fun hs => hs.2.1.elim⟩⟩
  · simp only [hid, Bool.not_false, ↓reduceIte]
    exact ⟨_, rfl, (receiveError_acted h _).congr fun b => ⟨False.elim, fun hs => absurd hs.1 Bool.false_ne_true⟩⟩

theorem chgPri_acted (h : Inv cfg [] k) (me : Nat) (tskid : ID) (tskpri : PRI) :
    ∃ out, k.chgPri cfg me tskid tskpri = some out ∧
      Acted cfg (some (if tskid = TSK_SELF then me else index tskid)) k out.2 (fun _ => [])
        (fun _ => False) fun _ => False := by
  unfold K.chgPri
  split
  · exact ⟨_, rfl, .refl h⟩
  · split
    · exact ⟨_, rfl, .refl h⟩
    · obtain ⟨t, ht⟩ : ∃ t, t = if tskid = TSK_SELF then me else index tskid := ⟨_, rfl⟩
      rw [← ht]
      by_cases hd : (k.tcb t).tstat = .dormant
      · simp only [hd, ↓reduceIte]
        exact ⟨_, rfl, .refl h⟩
      · obtain ⟨k', hc, ha⟩ := changePriority_acted h t
          (if tskpri = TPRI_INI then cfg.ipriority t else intPriority tskpri)
        simp only [hd, ↓reduceIte, hc]
        exact ⟨_, rfl, ha⟩

/-- The wait of a task ends with an error. -/
theorem release_acted (h : Inv cfg [] k)
    (hw : (k.tcb t).tstat = .waitSmbf ∨ (k.tcb t).tstat = .waitRmbf) (he : ercd ≠ E_OK) :
    ∃ k', k.waitDequeueWobj cfg t = some k' ∧ Acted cfg none k (k'.makeNonWait t ercd)
      (fun _ => []) (fun _ => False) fun _ => False := by
  obtain ⟨k', hk', htcb, ha⟩ := waitDequeueWobj_acted h hw
  refine ⟨k', hk', ?_⟩
  have hact := ha ((k.tcb t).awake ercd) (some ercd) (show Tstat.runnable ≠ .waitSmbf from nofun)
    (show Tstat.runnable ≠ .waitRmbf from nofun) (fun hn => he (Option.some.inj hn)) rfl
  rw [← htcb] at hact
  exact hact

theorem relWai_acted (h : Inv cfg [] k) (tskid : ID) : ∃ out, k.relWai cfg tskid = some out ∧
    Acted cfg none k out.2 (fun _ => []) (fun _ => False) fun _ => False := by
  unfold K.relWai
  by_cases hid : K.validTskid cfg tskid = true
  · simp only [hid, Bool.not_true, Bool.false_eq_true, ↓reduceIte]
    have hrel (hw : (k.tcb (index tskid)).tstat = .waitSmbf ∨
        (k.tcb (index tskid)).tstat = .waitRmbf) : ∃ k', k.waitRelease cfg (index tskid) = some k' ∧
        Acted cfg none k k' (fun _ => []) (fun _ => False) fun _ => False := by
      obtain ⟨k', hk', ha⟩ := release_acted h hw (show E_RLWAI ≠ E_OK by decide)
      refine ⟨_, ?_, ha⟩
      unfold K.waitRelease
      rw [hk']
      rfl
    cases ht : (k.tcb (index tskid)).tstat with
    | dormant => exact ⟨_, rfl, .refl h⟩
    | runnable => exact ⟨_, rfl, .refl h⟩
    | waitSmbf =>
      obtain ⟨k', hk', ha⟩ := hrel (.inl ht)
      simp only [hk', Option.bind_eq_bind, Option.bind_some]
      exact ⟨_, rfl, ha⟩
    | waitRmbf =>
      obtain ⟨k', hk', ha⟩ := hrel (.inr ht)
      simp only [hk', Option.bind_eq_bind, Option.bind_some]
      exact ⟨_, rfl, ha⟩
  · simp only [hid, Bool.not_false, ↓reduceIte]
    exact ⟨_, rfl, .refl h⟩

/-- The state of a task after `make_dormant`. -/
def TCB.dormant (cfg : Cfg) (t : Nat) (p : TCB) : TCB :=
  { p with
    tstat := if p.actque then .runnable else .dormant
    priority := cfg.ipriority t
    actque := false }

theorem TCB.dormant_tstat (p : TCB) (hs : s ≠ .runnable) (hd : s ≠ .dormant) :
    (p.dormant cfg t).tstat ≠ s := by
  unfold TCB.dormant
  split
  · exact Ne.symm hs
  · exact Ne.symm hd

theorem terTsk_acted (h : Inv cfg [] k) (me : Nat) (tskid : ID) :
    ∃ out, k.terTsk cfg me tskid = some out ∧
      Acted cfg none k out.2 (fun _ => []) (fun _ => False) fun _ => False := by
  unfold K.terTsk
  by_cases hid : K.validTskid cfg tskid = true
  · simp only [hid, Bool.not_true, Bool.false_eq_true, ↓reduceIte]
    by_cases hme : index tskid = me
    · simp only [hme, ↓reduceIte]
      exact ⟨_, rfl, .refl h⟩
    · simp only [hme, ↓reduceIte]
      have hter (hw : (k.tcb (index tskid)).tstat = .waitSmbf ∨
          (k.tcb (index tskid)).tstat = .waitRmbf) :
          ∃ k', k.waitDequeueWobj cfg (index tskid) = some k' ∧
          Acted cfg none k (K.makeDormant cfg (k'.note ((k.tcb (index tskid)).ending (index tskid)
            none)) (index tskid)) (fun _ => []) (fun _ => False) fun _ => False := by
        obtain ⟨k', hk', htcb, ha⟩ := waitDequeueWobj_acted h hw
        refine ⟨k', hk', ?_⟩
        exact ha ((k'.tcb (index tskid)).dormant cfg (index tskid)) none
          (TCB.dormant_tstat _ nofun nofun) (TCB.dormant_tstat _ nofun nofun) nofun
          (congrArg (fun p => p.winfo.msg) htcb)
      cases ht : (k.tcb (index tskid)).tstat with
      | dormant => exact ⟨_, rfl, .refl h⟩
      | runnable =>
        refine ⟨_, rfl, ?_⟩
        exact idle_acted (p := (k.tcb (index tskid)).dormant cfg (index tskid)) h
          (by rw [ht]; nofun) (by rw [ht]; nofun) (TCB.dormant_tstat _ nofun nofun)
          (TCB.dormant_tstat _ nofun nofun) rfl
      | waitSmbf =>
        obtain ⟨k', hk', ha⟩ := hter (.inl ht)
        simp only [hk', Option.bind_eq_bind, Option.bind_some]
        exact ⟨_, rfl, ha⟩
      | waitRmbf =>
        obtain ⟨k', hk', ha⟩ := hter (.inr ht)
        simp only [hk', Option.bind_eq_bind, Option.bind_some]
        exact ⟨_, rfl, ha⟩
  · simp only [hid, Bool.not_false, ↓reduceIte]
    exact ⟨_, rfl, .refl h⟩

theorem actTsk_acted (h : Inv cfg [] k) (tskid : ID) :
    Acted cfg none k (k.actTsk cfg tskid).2 (fun _ => []) (fun _ => False) fun _ => False := by
  unfold K.actTsk
  by_cases hid : K.validTskid cfg tskid = true
  · simp only [hid, Bool.not_true, Bool.false_eq_true, ↓reduceIte]
    by_cases hd : (k.tcb (index tskid)).tstat = .dormant
    · rw [if_pos hd]
      exact idle_acted h (by rw [hd]; nofun) (by rw [hd]; nofun)
        (show Tstat.runnable ≠ .waitSmbf from nofun) (show Tstat.runnable ≠ .waitRmbf from nofun)
        rfl
    · rw [if_neg hd]
      split
      · exact .refl h
      · exact setTcb_acted h rfl rfl fun _ _ _ => rfl
  · simp only [hid, Bool.not_false, ↓reduceIte]
    exact .refl h

/-- Every event that can happen has an outcome. -/
theorem step_acted (h : Inv cfg [] k) (he : e.enabled k = true) : ∃ k', k.step cfg e = some k' ∧
    Acted cfg e.moves k k' e.asks (e.strands cfg k) (e.inits cfg) := by
  have hs {e : Event} (hr : e.receives = none) (b : Nat) : False ↔ e.strands cfg k b := by
    refine ⟨False.elim, fun hs => ?_⟩
    obtain ⟨_, _, hs, -⟩ := hs
    rw [hr] at hs
    cases hs
  have hr {e : Event} {mbfid tmout} (hr : e.receives = some (mbfid, tmout)) (b : Nat) :
      (K.validMbfid cfg mbfid = true ∧ validTmout tmout = true ∧ b = index mbfid ∧ k.Stranded b) ↔
        e.strands cfg k b := by
    refine ⟨fun hs => ⟨mbfid, tmout, hr, hs⟩, fun ⟨_, _, hr', hs⟩ => ?_⟩
    rw [hr] at hr'
    cases hr'
    exact hs
  unfold K.step
  rw [if_pos he]
  cases e with
  | call me call =>
    have hme : (k.tcb me).tstat = .runnable := of_decide_eq_true he
    cases call with
    | sndMbf mbfid msg =>
      obtain ⟨out, ho, ha⟩ := tsndMbf_acted h hme mbfid msg TMO_FEVR
      exact ⟨out.2, congrArg (Option.map _) ho, ha.congr (hs rfl)⟩
    | psndMbf mbfid msg =>
      obtain ⟨out, ho, ha⟩ := tsndMbf_acted h hme mbfid msg TMO_POL
      exact ⟨out.2, congrArg (Option.map _) ho, ha.congr (hs rfl)⟩
    | tsndMbf mbfid msg tmout =>
      obtain ⟨out, ho, ha⟩ := tsndMbf_acted h hme mbfid msg tmout
      exact ⟨out.2, congrArg (Option.map _) ho, ha.congr (hs rfl)⟩
    | rcvMbf mbfid =>
      obtain ⟨out, ho, ha⟩ := trcvMbf_acted h hme mbfid TMO_FEVR
      exact ⟨out.2, congrArg (Option.map _) ho, ha.congr (hr rfl)⟩
    | prcvMbf mbfid =>
      obtain ⟨out, ho, ha⟩ := trcvMbf_acted h hme mbfid TMO_POL
      exact ⟨out.2, congrArg (Option.map _) ho, ha.congr (hr rfl)⟩
    | trcvMbf mbfid tmout =>
      obtain ⟨out, ho, ha⟩ := trcvMbf_acted h hme mbfid tmout
      exact ⟨out.2, congrArg (Option.map _) ho, ha.congr (hr rfl)⟩
    | iniMbf mbfid =>
      by_cases hid : K.validMbfid cfg mbfid = true
      · obtain ⟨-, ha⟩ := iniMbf_acted (m := none) h hid
        have hi : (fun b => b = index mbfid) = (Event.call me (.iniMbf mbfid)).inits cfg :=
          funext fun b => propext ⟨fun hb => ⟨hid, hb⟩, And.right⟩
        exact ⟨_, rfl, hi ▸ ha.congr (hs rfl)⟩
      · have hi : (fun _ => False) = (Event.call me (.iniMbf mbfid)).inits cfg :=
          funext fun b => propext ⟨False.elim, fun hb => hid hb.1⟩
        refine ⟨k, ?_, hi ▸ (Acted.refl h).congr (hs rfl)⟩
        simp only [K.exec, K.iniMbf, hid, Bool.not_false, ↓reduceIte, Option.map_some]
    | chgPri tskid tskpri =>
      obtain ⟨out, ho, ha⟩ := chgPri_acted h me tskid tskpri
      exact ⟨out.2, congrArg (Option.map _) ho, ha.congr (hs rfl)⟩
    | relWai tskid =>
      obtain ⟨out, ho, ha⟩ := relWai_acted h tskid
      exact ⟨out.2, congrArg (Option.map _) ho, ha.congr (hs rfl)⟩
    | terTsk tskid =>
      obtain ⟨out, ho, ha⟩ := terTsk_acted h me tskid
      exact ⟨out.2, congrArg (Option.map _) ho, ha.congr (hs rfl)⟩
    | actTsk tskid => exact ⟨_, rfl, (actTsk_acted h tskid).congr (hs rfl)⟩
  | irelWai tskid =>
    obtain ⟨out, ho, ha⟩ := relWai_acted h tskid
    exact ⟨out.2, congrArg (Option.map _) ho, ha.congr (hs rfl)⟩
  | iactTsk tskid => exact ⟨_, rfl, (actTsk_acted h tskid).congr (hs rfl)⟩
  | tmout t =>
    have ht : (k.tcb t).tstat = .waitSmbf ∨ (k.tcb t).tstat = .waitRmbf :=
      of_decide_eq_true (Bool.and_eq_true_iff.1 he).2
    obtain ⟨k', hk', ha⟩ := release_acted h ht (show E_TMOUT ≠ E_OK by decide)
    refine ⟨_, ?_, ha.congr (hs rfl)⟩
    change k.waitTmout cfg t = _
    unfold K.waitTmout
    rw [hk']
    rfl

theorem step_acted_of_eq (h : Inv cfg [] k) (he : k.step cfg e = some k') :
    Acted cfg e.moves k k' e.asks (e.strands cfg k) (e.inits cfg) := by
  have hen : e.enabled k = true := by
    unfold K.step at he
    split at he
    · assumption
    · cases he
  obtain ⟨k₁, hk₁, ha⟩ := step_acted h hen
  rw [he] at hk₁
  cases hk₁
  exact ha

theorem boot_inv (cfg : Cfg) (act : Nat → Bool) (mb : Nat → Nat → Byte) :
    Inv cfg [] (boot cfg act mb) := by
  have hst (t) : ((boot cfg act mb).tcb t).tstat ≠ .waitSmbf ∧
      ((boot cfg act mb).tcb t).tstat ≠ .waitRmbf := by
    unfold boot
    dsimp only
    split
    · exact ⟨nofun, nofun⟩
    · exact ⟨nofun, nofun⟩
  refine ⟨fun b => ⟨List.nodup_nil, fun t => ⟨nofun, fun ht => ?_⟩⟩,
    fun b => ⟨List.nodup_nil, fun t => ⟨nofun, fun ht => ?_⟩⟩, fun t ht => absurd ht (hst t).1,
    fun b => ⟨[], init_holds ..⟩, fun b hb => absurd rfl hb, fun _ _ => .nil⟩
  · rw [K.sloc_none (hst t).1] at ht
    cases ht
  · rw [K.rloc_none (hst t).2] at ht
    cases ht

/-- The steps of the system. -/
abbrev Run (cfg : Cfg) : K → List Event → K → Prop :=
  Trans.Run fun k e k' => k.step cfg e = some k'

theorem Run.inv (h : Run cfg k es k') (hi : Inv cfg [] k) : Inv cfg [] k' :=
  h.invariant (I := Inv cfg []) (fun _ _ _ ht he => (step_acted_of_eq ht he).inv) hi

/-- Of each buffer: a task that waits to send comes behind one whose message does not fit, and then
no task waits to receive; and where one waits to receive there is no message. -/
def K.Served (k : K) : Prop :=
  ∀ b, (∀ t q, (k.mbfcb b).swaitQueue = t :: q →
      (k.mbfcb b).fmbfsz < 4 + ((k.tcb t).winfo.msg.length + 3) / 4 * 4 ∧
        (k.mbfcb b).rwaitQueue = []) ∧
    ((k.mbfcb b).rwaitQueue ≠ [] → (k.mbfcb b).smbfcnt = 0 ∧ (k.mbfcb b).swaitQueue = [])

theorem Inv.served (h : Inv cfg x k) : k.Served ↔ ∀ b, Prompt k b := by
  refine ⟨fun hs b t q hq => ((hs b).1 t q hq).1,
    fun hp b => ⟨fun t q hq => ⟨hp b t q hq, ?_⟩, fun hr => h.recv b hr⟩⟩
  by_contra hr
  have hnil := (h.recv b hr).2
  rw [K.swaits, hq] at hnil
  cases hnil

/-- In a run that takes no message directly from a sender in front of one that could proceed, no
sender waits that could proceed; every event has an outcome, and after it that is still so exactly
where the event is not such a reception. -/
theorem reachable_served (cfg : Cfg) (act : Nat → Bool) (mb : Nat → Nat → Byte)
    (h : Trans.Run (fun k e k' => k.step cfg e = some k' ∧ ∀ b, ¬e.strands cfg k b)
      (boot cfg act mb) es k) :
    k.Served ∧ ∀ e : Event, e.enabled k = true →
      ∃ k', k.step cfg e = some k' ∧ (k'.Served ↔ ∀ b, ¬e.strands cfg k b) := by
  have hk : Inv cfg [] k ∧ ∀ b, Prompt k b := by
    refine h.invariant (I := fun k => Inv cfg [] k ∧ ∀ b, Prompt k b) (fun t e u ht he => ?_)
      ⟨boot_inv .., fun b t q hq => ?_⟩
    · have ha := step_acted_of_eq ht.1 he.1
      obtain ⟨l, -, -, hat⟩ := ha.act
      exact ⟨ha.inv, fun b => ((hat b).prompt (ht.2 b)).2 (he.2 b)⟩
    · cases hq
  refine ⟨hk.1.served.2 hk.2, fun e he => ?_⟩
  obtain ⟨k', hk', ha⟩ := step_acted hk.1 he
  obtain ⟨l, -, -, hat⟩ := ha.act
  exact ⟨k', hk', ha.inv.served.trans (forall_congr' fun b => (hat b).prompt (hk.2 b))⟩

/-- One buffer of 8 bytes. -/
def Cfg.one (mbfatr : ATR) : Cfg where
  tmaxTskid := 3
  tmaxMbfid := 1
  ipriority t := t
  mbfinib _ := .create mbfatr 16 8 sixteen_bytes_lt

theorem reachable_served_wait : ∃ k, Run (.one TA_NULL) (boot (.one TA_NULL) (fun _ => true)
    fun _ _ => 0) [.call 0 (.sndMbf 1 (List.replicate 9 0))] k ∧ k.Served := by
  obtain ⟨k, hk, -⟩ := step_acted (e := .call 0 (.sndMbf 1 (List.replicate 9 0)))
    (boot_inv (.one TA_NULL) (fun _ => true) fun _ _ => 0) rfl
  refine ⟨k, .one hk, (reachable_served _ _ _ (.one ⟨hk, fun b hs => ?_⟩)).1⟩
  obtain ⟨_, _, hr, -⟩ := hs
  cases hr

/-- A message that is larger than the buffer is taken from the first sender. -/
theorem served_lost : ∃ k, Run (.one TA_NULL) (boot (.one TA_NULL) (fun _ => true) fun _ _ => 0)
    [.call 0 (.sndMbf 1 (List.replicate 9 0)), .call 1 (.sndMbf 1 [7]), .call 2 (.rcvMbf 1)] k ∧
    (k.mbfcb 0).smbfcnt = 0 ∧ ¬k.Served := by
  have h : ([.call 0 (.sndMbf 1 (List.replicate 9 0)), .call 1 (.sndMbf 1 [7]),
      .call 2 (.rcvMbf 1)].foldlM (K.step (.one TA_NULL)) (boot (.one TA_NULL) (fun _ => true)
      fun _ _ => 0)).any (fun k => decide ((k.mbfcb 0).smbfcnt = 0 ∧
        (k.mbfcb 0).swaitQueue = [1] ∧ (k.mbfcb 0).fmbfsz = 8 ∧ (k.tcb 1).winfo.msg = [7])) =
      true := by
    decide +kernel
  obtain ⟨k, hk, h⟩ := (Option.any_eq_true _ _).1 h
  obtain ⟨hn, hq, hf, hm⟩ := of_decide_eq_true h
  refine ⟨k, Trans.Run.of_foldlM hk, hn, fun hs => ?_⟩
  have hlt := ((hs 0).1 1 [] hq).1
  rw [hf, hm] at hlt
  exact absurd hlt (by decide)

/-- A buffer is a queue of messages as long as it is not initialised. -/
theorem Run.stored (h : Run cfg k es k') (hi : Inv cfg [] k) (hb : ∀ e ∈ es, ¬e.inits cfg b) :
    ∃ l, k'.ended = k.ended ++ l ∧ k.stored cfg b ++ (sentOn b l).map Prod.snd =
      (receivedOn b l).map Prod.snd ++ k'.stored cfg b := by
  induction h with
  | nil => exact ⟨[], (List.append_nil _).symm, List.append_nil _⟩
  | snoc hr he ih =>
    obtain ⟨l, hl, hc⟩ := ih fun e hm => hb e (List.mem_append_left _ hm)
    obtain ⟨l', hl', -, hat⟩ := (step_acted_of_eq (Run.inv hr hi) he).act
    have hc' := (hat b).stored (hb _ (List.mem_append_right _ (List.mem_singleton_self _)))
    refine ⟨l ++ l', by rw [hl', hl, List.append_assoc], ?_⟩
    rw [sentOn_append, receivedOn_append, List.map_append, List.map_append, ← List.append_assoc,
      hc, List.append_assoc, hc', List.append_assoc]

end AspKernel.Mbf
