import AspKernel.MbfStep

namespace AspKernel.Mbf
set_option autoImplicit true

/-- The sender that comes second could proceed, but it is the first one that is served. -/
def K.Stranded (k : K) (b : Nat) : Prop :=
  (k.mbfcb b).smbfcnt = 0 ∧
    ∃ t u q, k.swaits b = t :: u :: q ∧ allocsz (k.msg u) ≤ (k.mbfcb b).fmbfsz

theorem ask_comm {k : K} (h : k.pending me = []) (t : Nat) :
    k.pending t ++ ask me b msg t = ask me b msg t ++ k.pending t := by
  by_cases ht : t = me
  · rw [ht, h, List.nil_append, List.append_nil]
  · rw [ask, if_neg ht, List.nil_append, List.append_nil]

/-- An event that leaves all buffers alone. -/
theorem Acted.quiet (h : Inv cfg [] k') (hm : k'.mbfcb = k.mbfcb) (he : k'.ended = k.ended ++ l)
    (hs : ∀ b, sentOn b l = []) (hr : ∀ b, receivedOn b l = [])
    (hc : ∀ t, k.pending t ++ a t = sendsOf t l ++ k'.pending t)
    (hmsg : ∀ b, ∀ t ∈ k.swaits b, k'.msg t = k.msg t) :
    Acted cfg m k k' a (fun _ => False) fun _ => False :=
  ⟨h, l, he, hc, fun b => .frame (congrFun hm b) (hs b) (hr b) (hmsg b)⟩

theorem Acted.refl (h : Inv cfg [] k) :
    Acted cfg m k k (fun _ => []) (fun _ => False) fun _ => False :=
  .quiet h rfl (List.append_nil _).symm (fun _ => rfl) (fun _ => rfl)
    (fun _ => List.append_nil _) fun _ _ _ => rfl

theorem sendError_acted (h : Inv cfg [] k) (hme : (k.tcb me).tstat = .runnable) (ercd : ER) :
    Acted cfg m k (k.sendError me b msg ercd).2 (ask me b msg) (fun _ => False) fun _ => False := by
  refine .quiet (l := [.sendFailed me b msg (some ercd)]) (h.note _) rfl rfl (fun _ => rfl)
    (fun _ => rfl) (fun t => ?_) fun _ _ _ => rfl
  rw [sendsOf_sendFailed]
  refine ask_comm (K.pending_nil ?_) t
  rw [hme]
  exact nofun

theorem receiveError_acted (h : Inv cfg [] k) (ercd : ER) :
    Acted cfg m k (k.receiveError me b ercd).2 (fun _ => []) (fun _ => False) fun _ => False :=
  .quiet (l := [.receiveFailed me b (some ercd)]) (h.note _) rfl rfl (fun _ => rfl)
    (fun _ => rfl) (fun _ => List.append_nil _) fun _ _ _ => rfl

theorem sendMessage_hand_eq (h : Inv cfg [] k) (hq : k.rwaits b = t :: q) (me : Nat)
    (msg : List Byte) :
    ∃ k', k.sendMessage cfg me b msg = some (true, k') ∧ Inv cfg [] k' ∧
      k'.mbfcb b = { k.mbfcb b with rwaitQueue := q } ∧ (∀ b', b' ≠ b → k'.mbfcb b' = k.mbfcb b') ∧
      (∀ u, u ≠ t → k'.tcb u = k.tcb u) ∧ (k'.tcb t).tstat = .runnable ∧
      k'.ended = k.ended ++ [.sent me b msg, .received t b msg] := by
  have ht : t ∈ k.rwaits b := hq ▸ List.mem_cons_self
  obtain ⟨-, htst, hmbf⟩ := h.mem_rwaits.1 ht
  have hq' : (k.mbfcb b).rwaitQueue = t :: q := hq
  have h1 := h.leaveR ht
  rw [hq, List.erase_cons_head] at h1
  let w := k.tcb t
  have h2 := h1.hidden (p := { w with winfo := { w.winfo with msg } }) (.inl (by rw [htst]; nofun))
  refine ⟨_, ?_, (h2.note (.sent me b msg)).makeNonWait E_OK, K.setMbf_self,
    fun b' hb => K.setMbf_ne hb, fun u hu => ?_, ?_, ?_⟩
  · simp only [K.sendMessage, hq']
    rfl
  · rw [K.makeNonWait_tcb, if_neg hu, K.note_tcb, K.setTcb_ne hu]
    rfl
  · rw [K.makeNonWait_tcb, if_pos rfl]
    rfl
  · unfold K.makeNonWait TCB.ending
    simp only [K.note_tcb, K.setTcb_self, htst, ↓reduceIte, hmbf, w]
    exact List.append_assoc ..

theorem Holds.nil {ini : MBFINIB} {p : MBFCB} (h : Holds ini p msgs) (hn : p.smbfcnt = 0) :
    msgs = [] := List.length_eq_zero_iff.1 (h.cnt.symm.trans hn)

/-- The message goes to the task that waits longest to receive. -/
theorem sendMessage_hand (h : Inv cfg [] k) (hme : (k.tcb me).tstat = .runnable)
    (hq : k.rwaits b = t :: q) (msg : List Byte) : ∃ k', k.sendMessage cfg me b msg = some (true, k') ∧
    Acted cfg none k k' (ask me b msg) (fun _ => False) fun _ => False := by
  have ht : t ∈ k.rwaits b := hq ▸ List.mem_cons_self
  obtain ⟨-, htst, -⟩ := h.mem_rwaits.1 ht
  obtain ⟨hn, hs⟩ := h.recv b (hq ▸ List.cons_ne_nil t q)
  obtain ⟨msgs, hh⟩ := h.holds b
  obtain ⟨k', he, hinv, hm, ho, htcb, ht', hend⟩ := sendMessage_hand_eq h hq me msg
  have hpend : k'.pending = k.pending := by
    funext u
    by_cases hut : u = t
    · rw [hut, K.pending_nil (by simp [ht']), K.pending_nil (by simp [htst])]
    · rw [K.pending, htcb u hut]
      rfl
  refine ⟨k', he, hinv, _, hend, fun u => ?_, fun b' => ?_⟩
  · rw [hpend, ← List.singleton_append, sendsOf_append, sendsOf_sent, sendsOf_received,
      List.append_nil]
    refine ask_comm (K.pending_nil ?_) u
    simp [hme]
  · by_cases hb : b' = b
    · subst hb
      have hst : k'.stored cfg b' = [] := by
        refine Holds.stored ?_
        rw [hm]
        exact hh.nil hn ▸ hh.queues _ q
      have hsw : k'.swaits b' = [] := (congrArg MBFCB.swaitQueue hm).trans hs
      rw [← List.singleton_append]
      refine ⟨fun _ => ?_, fun _ => ?_, False.elim, fun _ => ⟨fun _ => id, fun _ u q hu => ?_⟩⟩
      · simp only [hh.stored, hh.nil hn, hst, sentOn_append, sentOn_sent, sentOn_received,
          receivedOn_append, receivedOn_sent, receivedOn_received, List.map_cons, List.map_nil,
          List.nil_append, List.append_nil]
      · simp only [sentOn_append, sentOn_sent, sentOn_received, hsw, List.append_nil,
          List.map_cons, List.map_nil]
        rw [← hs]
        exact .first (fun _ => hs) (by simp [hs])
      · rw [hsw] at hu
        cases hu
    · refine .frame (ho b' hb) ?_ ?_ fun u hu => ?_
      · rw [← List.singleton_append, sentOn_append, sentOn_sent_ne (Ne.symm hb), sentOn_received]
        rfl
      · rw [← List.singleton_append, receivedOn_append, receivedOn_received_ne (Ne.symm hb)]
        rfl
      · rw [K.msg, htcb u]
        · rfl
        · rintro rfl
          rw [(h.mem_swaits.1 hu).2.1] at htst
          cases htst

theorem havePrecedence_lt (h : Inv cfg [] k) (hp : k.havePrecedence cfg me b = true)
    (hu : u ∈ k.swaits b) : (cfg.mbfinib b).mbfatr.has TA_TPRI = true ∧
    (k.tcb me).priority < (k.tcb u).priority := by
  unfold K.havePrecedence at hp
  split at hp
  · rename_i hq
    rw [K.swaits, hq] at hu
    cases hu
  · rename_i t q hq
    obtain ⟨ha, hlt⟩ := Bool.and_eq_true_iff.1 hp
    have hlt := of_decide_eq_true hlt
    refine ⟨ha, ?_⟩
    have hs := h.sorted b ha
    rw [K.swaits, hq] at hs hu
    rcases List.mem_cons.1 hu with rfl | hu
    · exact hlt
    · exact hlt.trans_le ((List.pairwise_cons.1 hs).1 u hu)

/-- The message is put into the buffer. -/
theorem sendMessage_store (h : Inv cfg [] k) (hme : (k.tcb me).tstat = .runnable)
    (h0 : 0 < msg.length) (hle : msg.length ≤ (cfg.mbfinib b).maxmsz) (hr : k.rwaits b = []) :
    (∃ k', k.sendMessage cfg me b msg = some (true, k') ∧
      Acted cfg none k k' (ask me b msg) (fun _ => False) fun _ => False) ∨
    k.sendMessage cfg me b msg = some (false, k) ∧
      (k.havePrecedence cfg me b = true → (k.mbfcb b).fmbfsz < allocsz msg) := by
  have hr' : (k.mbfcb b).rwaitQueue = [] := hr
  obtain ⟨msgs, hh⟩ := h.holds b
  by_cases hp : k.havePrecedence cfg me b = true
  · have he := hh.enqueue h0 hle
    split at he
    · obtain ⟨p, he, hp', hsq, hrq⟩ := he
      refine .inl ⟨(k.setMbf b p).note (.sent me b msg), ?_, ?_⟩
      · simp only [K.sendMessage, hr', hp, ↓reduceIte, he]
        rfl
      · have hinv := h.ring hp' hsq hrq fun hn => absurd hr hn
        refine ⟨hinv.note _, [.sent me b msg], rfl, fun t => ?_, fun b' => ?_⟩
        · rw [sendsOf_sent]
          refine ask_comm (K.pending_nil ?_) t
          rw [hme]
          exact nofun
        · by_cases hb : b' = b
          · subst hb
            have hm : ((k.setMbf b' p).note (.sent me b' msg)).mbfcb b' = p := K.setMbf_self
            have hst : ((k.setMbf b' p).note (.sent me b' msg)).stored cfg b' = msgs ++ [msg] :=
              Holds.stored (hm.symm ▸ hp')
            have hsw : ((k.setMbf b' p).note (.sent me b' msg)).swaits b' = k.swaits b' :=
              (congrArg MBFCB.swaitQueue hm).trans hsq
            refine ⟨fun _ => ?_, fun _ => ?_, False.elim,
              fun hpr => ⟨fun _ => id, fun _ u q hu => ?_⟩⟩
            · rw [hst, hh.stored, sentOn_sent, receivedOn_sent]
              rfl
            · rw [sentOn_sent, hsw]
              refine .first (fun ha => List.eq_nil_iff_forall_not_mem.2 fun u hu => ?_)
                fun u hu => (havePrecedence_lt h hp hu).2
              rw [(havePrecedence_lt h hp hu).1] at ha
              cases ha
            · rw [hsw] at hu
              refine Nat.lt_of_le_of_lt ?_ (hpr u q hu)
              rw [hm]
              have hs1 := hh.size
              have hs2 := hp'.size
              rw [total_append] at hs2
              omega
          · exact .frame (K.setMbf_ne hb) (sentOn_sent_ne (Ne.symm hb)) rfl fun _ _ => rfl
    · rename_i hf
      refine .inr ⟨?_, fun _ => Nat.lt_of_not_le hf⟩
      simp only [K.sendMessage, hr', hp, ↓reduceIte, he]
      rfl
  · refine .inr ⟨?_, fun hp' => absurd hp' hp⟩
    simp only [K.sendMessage, hr', hp, Bool.false_eq_true, ↓reduceIte]

/-- The first message in the area is received, and the senders that wait are served. -/
theorem receiveMessage_stored (h : Inv cfg [] k) (hn : 0 < (k.mbfcb b).smbfcnt) (me : Nat) :
    ∃ msg k', k.receiveMessage cfg me b = some (some msg, k') ∧
      Acted cfg none k k' (fun _ => []) (fun _ => False) fun _ => False := by
  obtain ⟨msgs, hh⟩ := h.holds b
  cases msgs with
  | nil => exact absurd hh.cnt (Nat.ne_of_gt hn)
  | cons msg msgs =>
    obtain ⟨p, he, hp, hsq, hrq⟩ := hh.dequeue
    have hnr (hr : k.rwaits b ≠ []) : p.smbfcnt = 0 := absurd (h.recv b hr).1 (Nat.ne_of_gt hn)
    have h1 := (h.ring hp hsq hrq hnr).note (.received me b msg)
    obtain ⟨k', ts, hk', hsig, hinv⟩ := messagebufSignal_spec h1 b
    have hm : ((k.setMbf b p).note (.received me b msg)).mbfcb b = p := K.setMbf_self
    refine ⟨msg, k', ?_, hinv, [.received me b msg] ++ ts.map (fun t => .sent t b (k.msg t)) ++ [],
      ?_, fun t => ?_, fun b' => ?_⟩
    · simp only [K.receiveMessage, hn, ↓reduceIte, he, Option.bind_eq_bind, Option.bind_some]
      rw [hk']
      rfl
    · rw [hsig.ended, List.append_nil]
      exact List.append_assoc ..
    · rw [List.append_nil, List.append_nil, sendsOf_append, sendsOf_received, List.nil_append]
      exact hsig.calls h1 t
    · by_cases hb : b' = b
      · subst hb
        refine hsig.at hsig.msg rfl sentOn_received rfl rfl ?_ ?_
        · rw [hh.stored, receivedOn_received, Holds.stored (hm.symm ▸ hp)]
          rfl
        · rw [show K.swaits _ b' = k.swaits b' from (congrArg MBFCB.swaitQueue hm).trans hsq]
          exact .stay
      · refine .frame ((hsig.other b' hb).trans (K.setMbf_ne hb)) ?_ ?_ fun t _ =>
          congrFun hsig.msg t
        · rw [List.append_nil, sentOn_append, sentOn_received, sentOn_map_ne _ _ (Ne.symm hb)]
          rfl
        · rw [List.append_nil, receivedOn_append, receivedOn_received_ne (Ne.symm hb),
            receivedOn_map]
          rfl

/-- The message of the first task that waits to send is received. -/
theorem receiveMessage_direct (h : Inv cfg [] k) (hn : (k.mbfcb b).smbfcnt = 0)
    (hq : k.swaits b = t :: q) (me : Nat) :
    ∃ k', k.receiveMessage cfg me b = some (some (k.msg t), k') ∧
      Acted cfg none k k' (fun _ => []) (fun b' => b' = b ∧ k.Stranded b) fun _ => False := by
  have ht : t ∈ k.swaits b := hq ▸ List.mem_cons_self
  obtain ⟨-, htst, hmbf⟩ := h.mem_swaits.1 ht
  obtain ⟨msgs, hh⟩ := h.holds b
  have hq' : (k.mbfcb b).swaitQueue = t :: q := hq
  have h1 := h.leaveS ht
  rw [hq, List.erase_cons_head] at h1
  have hinv := (h1.makeNonWait E_OK).note (.received me b (k.msg t))
  have hmsg : (((k.setMbf b { k.mbfcb b with swaitQueue := q }).makeNonWait t E_OK).note
      (.received me b (k.msg t))).msg = k.msg := K.makeNonWait_msg ..
  have hm : (((k.setMbf b { k.mbfcb b with swaitQueue := q }).makeNonWait t E_OK).note
      (.received me b (k.msg t))).mbfcb b = { k.mbfcb b with swaitQueue := q } := K.setMbf_self
  refine ⟨_, ?_, hinv, [.sent t b (k.msg t)] ++ [.received me b (k.msg t)], ?_, fun u => ?_,
    fun b' => ?_⟩
  · simp only [K.receiveMessage, hn, Nat.lt_irrefl, ↓reduceIte, hq']
    rfl
  · unfold K.makeNonWait TCB.ending
    simp only [K.setMbf_tcb, htst, ↓reduceIte, hmbf]
    exact List.append_assoc ..
  · rw [List.append_nil, sendsOf_append, sendsOf_sent, sendsOf_received, List.append_nil, K.pending,
      K.pending, K.note_tcb, K.makeNonWait_tcb, K.setMbf_tcb, ask]
    by_cases hut : u = t
    · subst hut
      rw [TCB.pending, if_pos htst, hmbf, if_pos rfl, if_pos rfl]
      rfl
    · rw [if_neg hut, if_neg hut]
      rfl
  · by_cases hb : b' = b
    · subst hb
      have hst : K.stored cfg (((k.setMbf b' { k.mbfcb b' with swaitQueue := q }).makeNonWait t
          E_OK).note (.received me b' (k.msg t))) b' = [] := by
        refine Holds.stored ?_
        rw [hm]
        exact hh.nil hn ▸ hh.queues q _
      have hsw : K.swaits (((k.setMbf b' { k.mbfcb b' with swaitQueue := q }).makeNonWait t
          E_OK).note (.received me b' (k.msg t))) b' = q := congrArg MBFCB.swaitQueue hm
      refine ⟨fun _ => ?_, fun _ => ?_, False.elim,
        fun _ => ⟨fun hp hs => ?_, fun hs u q' hu => ?_⟩⟩
      · simp only [hh.stored, hh.nil hn, hst, sentOn_append, sentOn_sent, sentOn_received,
          receivedOn_append, receivedOn_sent, receivedOn_received, List.map_cons, List.map_nil,
          List.nil_append, List.append_nil]
      · rw [sentOn_append, sentOn_sent, sentOn_received, hsw]
        change Turn cfg none k _ b' (t :: q)
        rw [← hq]
        exact .stay
      · obtain ⟨-, -, t', u, q', hq2, hle⟩ := hs
        rw [hq] at hq2
        cases hq2
        have hlt := hp u q' hsw
        rw [hm, hmsg] at hlt
        exact absurd hlt (Nat.not_lt.2 hle)
      · rw [hsw] at hu
        rw [hm, hmsg]
        refine Nat.lt_of_not_le fun hle => hs ⟨rfl, hn, t, u, q', ?_, hle⟩
        rw [hq, hu]
    · have hf : At cfg none k (((k.setMbf b { k.mbfcb b with swaitQueue := q }).makeNonWait t
          E_OK).note (.received me b (k.msg t))) b' False False
          ([.sent t b (k.msg t)] ++ [.received me b (k.msg t)]) := by
        refine .frame (K.setMbf_ne hb) ?_ ?_ fun u _ => congrFun hmsg u
        · rw [sentOn_append, sentOn_sent_ne (Ne.symm hb), sentOn_received]
          rfl
        · rw [receivedOn_append, receivedOn_sent, receivedOn_received_ne (Ne.symm hb)]
          rfl
      exact ⟨hf.stored, hf.line, hf.init, fun hp => (hf.prompt hp).trans
        ⟨fun _ hs => hb hs.1, fun _ => id⟩⟩

theorem Inv.not_mem_swaits (h : Inv cfg x k) (ht : (k.tcb t).tstat ≠ .waitSmbf) :
    t ∉ k.swaits b := fun hm => ht (h.mem_swaits.1 hm).2.1

/-- Who is the first in the queue that a task has joined. -/
theorem joined_head {k : K} (hq : (if (cfg.mbfinib b).mbfatr.has TA_TPRI then
      k.queueInsertTpri me (k.swaits b) else k.swaits b ++ [me]) = u :: q) :
    u = me ∧ k.havePrecedence cfg me b = true ∨ ∃ q', k.swaits b = u :: q' := by
  unfold K.havePrecedence
  cases hs : k.swaits b with
  | nil =>
    rw [hs] at hq
    have hs' : (k.mbfcb b).swaitQueue = [] := hs
    refine .inl ⟨?_, by rw [hs']⟩
    split at hq
    · exact (List.cons.inj hq).1.symm
    · exact (List.cons.inj hq).1.symm
  | cons t q' =>
    rw [hs] at hq
    have hs' : (k.mbfcb b).swaitQueue = t :: q' := hs
    rw [hs']
    split at hq
    · rename_i ha
      unfold K.queueInsertTpri Links.insertBy at hq
      split at hq
      · rename_i hlt
        exact .inl ⟨(List.cons.inj hq).1.symm, Bool.and_eq_true_iff.2 ⟨ha, hlt⟩⟩
      · exact .inr ⟨q', congrArg (· :: q') (List.cons.inj hq).1⟩
    · exact .inr ⟨q', congrArg (· :: q') (List.cons.inj hq).1⟩

/-- The caller waits to send. -/
theorem makeWaitSmbf_acted (h : Inv cfg [] k) (hme : (k.tcb me).tstat = .runnable)
    (h0 : 0 < msg.length) (hle : msg.length ≤ (cfg.mbfinib b).maxmsz) (hr : k.rwaits b = [])
    (hf : k.havePrecedence cfg me b = true → (k.mbfcb b).fmbfsz < allocsz msg) :
    Acted cfg none k (k.makeWaitSmbf cfg me b msg tmout) (ask me b msg) (fun _ => False)
      fun _ => False := by
  have hns : (k.tcb me).tstat ≠ .waitSmbf := by rw [hme]; nofun
  have hnr : (k.tcb me).tstat ≠ .waitRmbf := by rw [hme]; nofun
  have hnot : me ∉ k.swaits b := h.not_mem_swaits hns
  let p := { k.tcb me with tstat := .waitSmbf, winfo := ⟨E_OK, tmout != TMO_FEVR, b, msg⟩ }
  let l := if (cfg.mbfinib b).mbfatr.has TA_TPRI then k.queueInsertTpri me (k.swaits b)
    else k.swaits b ++ [me]
  have heq : k.makeWaitSmbf cfg me b msg tmout =
      (k.setTcb me p).setMbf b { k.mbfcb b with swaitQueue := l } := rfl
  have hself : (k.setTcb me p).tcb me = p := K.setTcb_self
  have hpri (u) : ((k.setTcb me p).tcb u).priority = (k.tcb u).priority := by
    by_cases hu : u = me
    · rw [hu, hself]
    · rw [K.setTcb_ne hu]
  have hmsg (b') (u) (hu : u ∈ k.swaits b') : (k.setTcb me p).msg u = k.msg u := by
    have hne : u ≠ me := fun he => hns (he ▸ (h.mem_swaits.1 hu).2.1)
    rw [K.msg, K.setTcb_ne hne]
    rfl
  have hperm : l.Perm (me :: k.swaits b) := by
    simp only [l]
    split
    · exact Links.insertBy_perm ..
    · exact List.perm_append_singleton ..
  have hline : Turn cfg none k (k.makeWaitSmbf cfg me b msg tmout) b l := by
    simp only [l]
    split
    · rename_i ha
      have hj : Turn cfg none k (k.makeWaitSmbf cfg me b msg tmout) b _ :=
        .join ha hnot fun u _ => hpri u
      rwa [K.queueInsertTpri, Links.insertBy_congr (fun a b =>
        decide ((k.tcb a).priority < (k.tcb b).priority)) fun u _ => ?_] at hj
      simp only [heq, K.setMbf_tcb, hpri]
    · rename_i ha
      exact .last (Bool.eq_false_iff.2 ha) hnot
  have hinv : Inv cfg [] (k.makeWaitSmbf cfg me b msg tmout) := by
    have h1 : Inv cfg [me] (k.setTcb me p) := by
      refine h.setTcb ?_ ?_ (fun _ => ⟨h0, hle⟩) fun b' _ hm => absurd hm (h.not_mem_swaits hns)
      · rw [K.sloc_cons, Function.update_eq_iff]
        refine ⟨(K.sloc_none hns).symm, fun u hu => ?_⟩
        rw [K.sloc, K.setTcb_ne hu]
        rfl
      · rw [K.rloc_cons, Function.update_eq_iff]
        refine ⟨(K.rloc_none hnr).symm, fun u hu => ?_⟩
        rw [K.rloc, K.setTcb_ne hu]
        rfl
    refine h1.enterS ?_ (List.not_mem_nil) hr hperm fun ha => ?_
    · rw [hself]
      rfl
    · simp only [ha, ↓reduceIte, hpri]
      refine Links.insertBy_pairwise (h.sorted b ha) (fun _ _ => le_trans) ?_ ?_
      · exact fun u _ hlt => (of_decide_eq_true hlt).le
      · exact fun u _ hlt => Nat.le_of_not_lt (of_decide_eq_false hlt)
  refine ⟨hinv, [], (List.append_nil _).symm, fun t => ?_, fun b' => ?_⟩
  · by_cases ht : t = me
    · subst ht
      rw [K.pending_nil hns, ask, if_pos rfl, heq, K.pending, K.setMbf_tcb, hself]
      rfl
    · rw [ask, if_neg ht, List.append_nil, heq, K.pending, K.pending, K.setMbf_tcb, K.setTcb_ne ht]
      rfl
  · by_cases hb : b' = b
    · subst hb
      obtain ⟨msgs, hh⟩ := h.holds b'
      have hm : (k.makeWaitSmbf cfg me b' msg tmout).mbfcb b' =
        { k.mbfcb b' with swaitQueue := l } := K.setMbf_self
      have hsw : (k.makeWaitSmbf cfg me b' msg tmout).swaits b' = l := congrArg MBFCB.swaitQueue hm
      refine ⟨fun _ => ?_, fun _ => ?_, False.elim, fun hp => ⟨fun _ => id, fun _ u q hu => ?_⟩⟩
      · rw [hh.stored, Holds.stored (hm ▸ hh.queues l _)]
        exact List.append_nil _
      · rw [hsw]
        exact hline
      · rw [hsw] at hu
        rw [hm]
        change (k.mbfcb b').fmbfsz < allocsz ((k.setTcb me p).msg u)
        rcases joined_head hu with ⟨rfl, hprec⟩ | ⟨q', hq'⟩
        · rw [K.msg, hself]
          exact hf hprec
        · rw [hmsg b' u (hq' ▸ List.mem_cons_self)]
          exact hp u q' hq'
    · exact .frame (K.setMbf_ne hb) rfl rfl fun u hu => hmsg b' u hu

/-- The caller waits to receive. -/
theorem makeWaitRmbf_acted (h : Inv cfg [] k) (hme : (k.tcb me).tstat = .runnable)
    (hs : k.swaits b = []) (hn : (k.mbfcb b).smbfcnt = 0) :
    Acted cfg none k (k.makeWaitRmbf me b tmout) (fun _ => []) (fun _ => False)
      fun _ => False := by
  have hns : (k.tcb me).tstat ≠ .waitSmbf := by rw [hme]; nofun
  have hnr : (k.tcb me).tstat ≠ .waitRmbf := by rw [hme]; nofun
  let p := { k.tcb me with tstat := .waitRmbf, winfo := ⟨E_OK, tmout != TMO_FEVR, b, []⟩ }
  have heq : k.makeWaitRmbf me b tmout =
      (k.setTcb me p).setMbf b { k.mbfcb b with rwaitQueue := k.rwaits b ++ [me] } := rfl
  have hself : (k.setTcb me p).tcb me = p := K.setTcb_self
  have hinv : Inv cfg [] (k.makeWaitRmbf me b tmout) := by
    have h1 : Inv cfg [me] (k.setTcb me p) := by
      refine h.setTcb ?_ ?_ nofun fun b' _ hm => absurd hm (h.not_mem_swaits hns)
      · rw [K.sloc_cons, Function.update_eq_iff]
        refine ⟨(K.sloc_none hns).symm, fun u hu => ?_⟩
        rw [K.sloc, K.setTcb_ne hu]
        rfl
      · rw [K.rloc_cons, Function.update_eq_iff]
        refine ⟨(K.rloc_none hnr).symm, fun u hu => ?_⟩
        rw [K.rloc, K.setTcb_ne hu]
        rfl
    refine h1.enterR ?_ (List.not_mem_nil) hs hn
    rw [hself]
    rfl
  refine ⟨hinv, [], (List.append_nil _).symm, fun t => ?_, fun b' => ?_⟩
  · rw [List.append_nil, heq]
    by_cases ht : t = me
    · subst ht
      rw [K.pending_nil hns, K.pending, K.setMbf_tcb, hself]
      rfl
    · rw [K.pending, K.pending, K.setMbf_tcb, K.setTcb_ne ht]
      rfl
  · by_cases hb : b' = b
    · subst hb
      obtain ⟨msgs, hh⟩ := h.holds b'
      have hm : (k.makeWaitRmbf me b' tmout).mbfcb b' =
        { k.mbfcb b' with rwaitQueue := k.rwaits b' ++ [me] } := K.setMbf_self
      have hsw : (k.makeWaitRmbf me b' tmout).swaits b' = k.swaits b' :=
        (congrArg MBFCB.swaitQueue hm).trans rfl
      refine ⟨fun _ => ?_, fun _ => ?_, False.elim, fun _ => ⟨fun _ => id, fun _ u q hu => ?_⟩⟩
      · rw [hh.stored, Holds.stored (hm ▸ hh.queues _ (k.rwaits b' ++ [me]))]
        exact List.append_nil _
      · rw [hsw]
        exact .stay
      · rw [hsw, hs] at hu
        cases hu
    · refine .frame (K.setMbf_ne hb) rfl rfl fun u hu => ?_
      have hne : u ≠ me := fun he => hns (he ▸ (h.mem_swaits.1 hu).2.1)
      rw [heq, K.msg, K.setMbf_tcb, K.setTcb_ne hne]
      rfl

/-- A task that waits leaves its queue, those behind it are served, and its wait ends. -/
theorem waitDequeueWobj_acted (h : Inv cfg [] k)
    (hw : (k.tcb t).tstat = .waitSmbf ∨ (k.tcb t).tstat = .waitRmbf) :
    ∃ k', k.waitDequeueWobj cfg t = some k' ∧ k'.tcb t = k.tcb t ∧ ∀ p ercd,
      p.tstat ≠ .waitSmbf → p.tstat ≠ .waitRmbf → ercd ≠ some E_OK →
      p.winfo.msg = (k.tcb t).winfo.msg →
      Acted cfg none k ((k'.setTcb t p).note ((k.tcb t).ending t ercd)) (fun _ => [])
        (fun _ => False) fun _ => False := by
  rcases hw with htst | htst
  · obtain ⟨b, hmbf⟩ : ∃ b, (k.tcb t).winfo.mbfcb = b := ⟨_, rfl⟩
    have ht : t ∈ k.swaits b := h.mem_swaits.2 ⟨List.not_mem_nil, htst, hmbf⟩
    have h1 := h.leaveS ht
    obtain ⟨k', ts, hk', hsig, hinv⟩ := messagebufSignal_spec h1 b
    have hm : (k.setMbf b { k.mbfcb b with swaitQueue := (k.swaits b).erase t }).mbfcb b =
      { k.mbfcb b with swaitQueue := (k.swaits b).erase t } := K.setMbf_self
    have hsw1 : (k.setMbf b { k.mbfcb b with swaitQueue := (k.swaits b).erase t }).swaits b =
      (k.swaits b).erase t := congrArg MBFCB.swaitQueue hm
    have hts : t ∉ ts := by
      intro hmem
      have hq : t ∈ (k.swaits b).erase t := by
        rw [← hsw1, hsig.queue]
        exact List.mem_append_left _ hmem
      exact (h.swait.nodup b).not_mem_erase hq
    have htcb : k'.tcb t = k.tcb t := by
      rw [hsig.tcb, if_neg hts]
      rfl
    refine ⟨k', ?_, htcb, fun p ercd hps hpr he hmsg => ⟨(hinv.awaken hps hpr).note _,
      [] ++ ts.map (fun t => .sent t b (k.msg t)) ++ [.sendFailed t b (k.msg t) ercd], ?_,
      fun u => ?_, fun b' => ?_⟩⟩
    · unfold K.waitDequeueWobj
      rw [htst, hmbf]
      exact hk'
    · have hend : (k.tcb t).ending t ercd = .sendFailed t b (k.msg t) ercd := by
        unfold TCB.ending
        rw [htst, hmbf]
        exact if_neg he
      rw [hend, List.nil_append, ← List.append_assoc]
      exact congrArg (· ++ [_]) hsig.ended
    · have hc := hsig.calls h1 u
      rw [List.append_nil, List.nil_append, sendsOf_append, sendsOf_sendFailed, ask,
        List.append_assoc]
      refine hc.trans (congrArg (_ ++ ·) ?_)
      by_cases hut : u = t
      · subst hut
        rw [if_pos rfl, K.pending, K.pending, htcb, K.note_tcb, K.setTcb_self, TCB.pending,
          TCB.pending, if_pos htst, if_neg hps, hmbf]
        rfl
      · rw [if_neg hut, K.pending, K.pending, K.note_tcb, K.setTcb_ne hut]
        rfl
    · have hmsg' : ((k'.setTcb t p).note ((k.tcb t).ending t ercd)).msg = k.msg := by
        refine Eq.trans ?_ hsig.msg
        funext u
        unfold K.msg
        by_cases hut : u = t
        · subst hut
          rw [K.note_tcb, K.setTcb_self, hmsg, htcb]
        · rw [K.note_tcb, K.setTcb_ne hut]
      by_cases hb : b' = b
      · subst hb
        refine hsig.at hmsg' rfl rfl rfl rfl ?_ ?_
        · obtain ⟨msgs, hh⟩ := h.holds b'
          rw [hh.stored, Holds.stored (hm.symm ▸ hh.queues _ _)]
          rfl
        · rw [hsw1]
          exact .leave
      · refine .frame ((hsig.other b' hb).trans (K.setMbf_ne hb)) ?_ ?_ fun u _ =>
          congrFun hmsg' u
        · rw [List.nil_append, sentOn_append, sentOn_map_ne _ _ (Ne.symm hb)]
          rfl
        · rw [List.nil_append, receivedOn_append, receivedOn_map]
          rfl
  · obtain ⟨b, hmbf⟩ : ∃ b, (k.tcb t).winfo.mbfcb = b := ⟨_, rfl⟩
    have ht : t ∈ k.rwaits b := h.mem_rwaits.2 ⟨List.not_mem_nil, htst, hmbf⟩
    have h1 := h.leaveR ht
    have hns : (k.tcb t).tstat ≠ .waitSmbf := by simp [htst]
    refine ⟨_, ?_, ?_, fun p ercd hps hpr he hmsg => ⟨(h1.awaken hps hpr).note _,
      [.receiveFailed t b ercd], ?_, fun u => ?_, fun b' => ?_⟩⟩
    · unfold K.waitDequeueWobj
      rw [htst, hmbf]
      rfl
    · rfl
    · have hend : (k.tcb t).ending t ercd = .receiveFailed t b ercd := by
        unfold TCB.ending
        rw [htst, hmbf]
        exact if_neg he
      rw [hend]
      rfl
    · rw [List.append_nil, sendsOf_receiveFailed, List.nil_append]
      by_cases hut : u = t
      · subst hut
        rw [K.pending_nil hns, K.pending, K.note_tcb, K.setTcb_self, TCB.pending, if_neg hps]
      · rw [K.pending, K.pending, K.note_tcb, K.setTcb_ne hut]
        rfl
    · have hmsg' : ((((k.setMbf b { k.mbfcb b with rwaitQueue := (k.rwaits b).erase t }).setTcb t
          p).note ((k.tcb t).ending t ercd))).msg = k.msg := by
        funext u
        unfold K.msg
        by_cases hut : u = t
        · subst hut
          rw [K.note_tcb, K.setTcb_self, hmsg]
        · rw [K.note_tcb, K.setTcb_ne hut]
          rfl
      by_cases hb : b' = b
      · subst hb
        have hm : (((k.setMbf b' { k.mbfcb b' with rwaitQueue := (k.rwaits b').erase t }).setTcb t
          p).note ((k.tcb t).ending t ercd)).mbfcb b' =
          { k.mbfcb b' with rwaitQueue := (k.rwaits b').erase t } := K.setMbf_self
        have hsw := congrArg MBFCB.swaitQueue hm
        obtain ⟨msgs, hh⟩ := h.holds b'
        refine ⟨fun _ => ?_, fun _ => ?_, False.elim, fun hp => ⟨fun _ => id, fun _ u q hu => ?_⟩⟩
        · rw [hh.stored, Holds.stored (hm.symm ▸ hh.queues _ _)]
          exact List.append_nil _
        · rw [sentOn_receiveFailed]
          refine Eq.subst (motive := Turn cfg none k _ b') hsw.symm .stay
        · rw [hm, hmsg']
          exact hp u q (hsw.symm.trans hu)
      · exact .frame (K.setMbf_ne hb) rfl rfl fun u _ => congrFun hmsg' u

theorem setTcb_pending {k : K} (hp : p.tstat = (k.tcb t).tstat) (hw : p.winfo = (k.tcb t).winfo) :
    (k.setTcb t p).pending = k.pending := by
  funext u
  by_cases hu : u = t
  · rw [hu, K.pending, K.pending, K.setTcb_self, TCB.pending, TCB.pending, hp, hw]
  · rw [K.pending, K.pending, K.setTcb_ne hu]

theorem setTcb_msg {k : K} (hw : p.winfo = (k.tcb t).winfo) : (k.setTcb t p).msg = k.msg := by
  funext u
  by_cases hu : u = t
  · rw [hu, K.msg, K.msg, K.setTcb_self, hw]
  · rw [K.msg, K.msg, K.setTcb_ne hu]

/-- A task changes that keeps its place in the queues. -/
theorem setTcb_acted (h : Inv cfg [] k) (hst : p.tstat = (k.tcb t).tstat)
    (hw : p.winfo = (k.tcb t).winfo) (hp : ∀ b, (cfg.mbfinib b).mbfatr.has TA_TPRI = true →
      t ∈ k.swaits b → p.priority = (k.tcb t).priority) :
    Acted cfg m k (k.setTcb t p) (fun _ => []) (fun _ => False) fun _ => False := by
  refine .quiet (l := []) (h.setTcb ?_ ?_ (fun hs => ?_) hp) rfl
    (List.append_nil _).symm (fun _ => rfl) (fun _ => rfl) (fun u => ?_)
    fun b u _ => congrFun (setTcb_msg hw) u
  · funext u
    by_cases hu : u = t
    · rw [hu, K.sloc, K.sloc, K.setTcb_self, TCB.sloc, TCB.sloc, hst, hw]
    · rw [K.sloc, K.sloc, K.setTcb_ne hu]
  · funext u
    by_cases hu : u = t
    · rw [hu, K.rloc, K.rloc, K.setTcb_self, TCB.rloc, TCB.rloc, hst, hw]
    · rw [K.rloc, K.rloc, K.setTcb_ne hu]
  · rw [hw]
    exact h.fits t (hst ▸ hs)
  · rw [List.append_nil]
    exact (congrFun (setTcb_pending hst hw) u).symm

/-- A task changes that does not wait. -/
theorem idle_acted (h : Inv cfg [] k) (hs : (k.tcb t).tstat ≠ .waitSmbf)
    (hr : (k.tcb t).tstat ≠ .waitRmbf) (hs' : p.tstat ≠ .waitSmbf) (hr' : p.tstat ≠ .waitRmbf)
    (hw : p.winfo = (k.tcb t).winfo) :
    Acted cfg m k (k.setTcb t p) (fun _ => []) (fun _ => False) fun _ => False := by
  refine .quiet (l := []) (h.idle (if_neg hs) (if_neg hr) (if_neg hs') (if_neg hr')) rfl
    (List.append_nil _).symm (fun _ => rfl) (fun _ => rfl) (fun u => ?_)
    fun b u _ => congrFun (setTcb_msg hw) u
  rw [List.append_nil]
  by_cases hu : u = t
  · rw [hu, K.pending_nil hs, K.pending, K.setTcb_self, TCB.pending, if_neg hs']
    rfl
  · rw [K.pending, K.pending, K.setTcb_ne hu]
    rfl

/-- A task goes to its new place in a queue. -/
theorem Inv.reinsert (h : Inv cfg [] k) (ht : t ∈ k.swaits b)
    (ha : (cfg.mbfinib b).mbfatr.has TA_TPRI = true) (pri : Nat) :
    Inv cfg [] ((k.setTcb t { k.tcb t with priority := pri }).setMbf b { k.mbfcb b with
      swaitQueue := K.queueInsertTpri (k.setTcb t { k.tcb t with priority := pri }) t
        ((k.swaits b).erase t) }) := by
  obtain ⟨-, htst, hmbf⟩ := h.mem_swaits.1 ht
  obtain ⟨k', hk'⟩ : ∃ k', k' = k.setTcb t { k.tcb t with priority := pri } := ⟨_, rfl⟩
  have hpri (u) (hu : u ∈ (k.swaits b).erase t) : (k'.tcb u).priority = (k.tcb u).priority := by
    have hne : u ≠ t := fun he => (h.swait.nodup b).not_mem_erase (he ▸ hu)
    rw [hk', K.setTcb_ne hne]
  have h1 := (h.leaveS ht).hidden (p := { k.tcb t with priority := pri }) (.inr ⟨htst, rfl⟩)
  obtain ⟨k₁, hk₁⟩ : ∃ k₁, k₁ = (k.setMbf b { k.mbfcb b with
    swaitQueue := (k.swaits b).erase t }).setTcb t { k.tcb t with priority := pri } := ⟨_, rfl⟩
  have hm : k₁.mbfcb b = { k.mbfcb b with swaitQueue := (k.swaits b).erase t } := by
    rw [hk₁, K.setTcb_mbfcb, K.setMbf_self]
  have htcb : k₁.tcb = k'.tcb := by
    rw [hk₁, hk']
    rfl
  have h2 := Inv.enterS (k := k₁) (b := b)
    (l := K.queueInsertTpri k' t ((k.swaits b).erase t)) (hk₁ ▸ h1) ?_ List.not_mem_nil ?_ ?_
    fun _ => ?_
  · rw [hm, hk₁] at h2
    rw [← hk']
    have he : ((k.setMbf b { k.mbfcb b with swaitQueue := (k.swaits b).erase t }).setTcb t
        { k.tcb t with priority := pri }).setMbf b { k.mbfcb b with
          swaitQueue := K.queueInsertTpri k' t ((k.swaits b).erase t) } =
        k'.setMbf b { k.mbfcb b with
          swaitQueue := K.queueInsertTpri k' t ((k.swaits b).erase t) } := by
      rw [hk']
      exact K.setMbf_setMbf (k.setTcb t { k.tcb t with priority := pri })
    exact he ▸ h2
  · rw [hk₁, K.setTcb_self]
    exact TCB.sloc_eq.2 ⟨htst, hmbf⟩
  · rw [K.rwaits, hm]
    by_contra hne
    rw [(h.recv b hne).2] at ht
    cases ht
  · rw [show k₁.swaits b = (k.swaits b).erase t from congrArg MBFCB.swaitQueue hm]
    exact Links.insertBy_perm ..
  · rw [htcb]
    refine Links.insertBy_pairwise ?_ (fun _ _ => le_trans) ?_ ?_
    · refine ((h.sorted b ha).sublist List.erase_sublist).imp_of_mem fun hu hv hle => ?_
      rw [hpri _ hu, hpri _ hv]
      exact hle
    · exact fun u _ hlt => (of_decide_eq_true hlt).le
    · exact fun u _ hlt => Nat.le_of_not_lt (of_decide_eq_false hlt)

theorem changePriority_eq {k : K} (htst : (k.tcb t).tstat = .waitSmbf) :
    k.changePriority cfg t pri = K.wobjChangePriority cfg
      (k.setTcb t { k.tcb t with priority := pri }) (k.tcb t).winfo.mbfcb t := by
  unfold K.changePriority
  simp only [K.setTcb_self, htst]

theorem changePriority_ne {k : K} (htst : (k.tcb t).tstat ≠ .waitSmbf) :
    k.changePriority cfg t pri = some (k.setTcb t { k.tcb t with priority := pri }) := by
  unfold K.changePriority
  cases hs : (k.tcb t).tstat with
  | waitSmbf => exact absurd hs htst
  | dormant => simp only [K.setTcb_self, hs]
  | runnable => simp only [K.setTcb_self, hs]
  | waitRmbf => simp only [K.setTcb_self, hs]

/-- A task goes to its new place in the queue, and the queue is served. -/
theorem changePriority_acted (h : Inv cfg [] k) (t pri : Nat) :
    ∃ k', k.changePriority cfg t pri = some k' ∧ Acted cfg (some t) k k' (fun _ => [])
      (fun _ => False) fun _ => False := by
  obtain ⟨k₁, hk₁⟩ : ∃ k₁, k₁ = k.setTcb t { k.tcb t with priority := pri } := ⟨_, rfl⟩
  by_cases htst : (k.tcb t).tstat = .waitSmbf
  · obtain ⟨b, hmbf⟩ : ∃ b, (k.tcb t).winfo.mbfcb = b := ⟨_, rfl⟩
    have ht : t ∈ k.swaits b := h.mem_swaits.2 ⟨List.not_mem_nil, htst, hmbf⟩
    rw [changePriority_eq htst, hmbf, ← hk₁]
    unfold K.wobjChangePriority
    split
    · rename_i ha
      have h1 := h.reinsert ht ha pri
      rw [← hk₁] at h1
      obtain ⟨l, hl⟩ : ∃ l, l = k₁.queueInsertTpri t ((k.swaits b).erase t) := ⟨_, rfl⟩
      rw [← hl] at h1
      obtain ⟨k', ts, hk', hsig, hinv⟩ := messagebufSignal_spec h1 b
      have hm : (k₁.setMbf b { k.mbfcb b with swaitQueue := l }).mbfcb b =
        { k.mbfcb b with swaitQueue := l } := K.setMbf_self
      have hmsg : (k₁.setMbf b { k.mbfcb b with swaitQueue := l }).msg = k.msg := by
        rw [hk₁]
        exact setTcb_msg (p := { k.tcb t with priority := pri }) rfl
      have hpend : (k₁.setMbf b { k.mbfcb b with swaitQueue := l }).pending = k.pending := by
        rw [hk₁]
        exact setTcb_pending (p := { k.tcb t with priority := pri }) rfl rfl
      have hpri (u) : (k'.tcb u).priority = (k₁.tcb u).priority := hsig.priority u
      refine ⟨k', ?_, hinv, [] ++ ts.map (fun t => .sent t b
        ((k₁.setMbf b { k.mbfcb b with swaitQueue := l }).msg t)) ++ [], ?_, fun u => ?_,
        fun b' => ?_⟩
      · rw [← hk', hl, hk₁]
        rfl
      · rw [hsig.ended, hk₁, List.append_nil]
        rfl
      · rw [List.append_nil, List.append_nil, List.nil_append, ← hpend]
        exact hsig.calls h1 u
      · by_cases hb : b' = b
        · subst hb
          refine hsig.at hsig.msg rfl rfl rfl rfl ?_ ?_
          · obtain ⟨msgs, hh⟩ := h.holds b'
            rw [hh.stored, Holds.stored (hm.symm ▸ hh.queues _ _)]
            rfl
          · rw [K.swaits, hm, hl]
            have hmv : Turn cfg (some t) k k' b' _ := .move ha rfl fun u hu => ?_
            · rwa [K.queueInsertTpri, Links.insertBy_congr (fun a b =>
                decide ((k₁.tcb a).priority < (k₁.tcb b).priority)) fun u _ => ?_] at hmv
              rw [hpri, hpri]
            · have hne : u ≠ t := fun he => (h.swait.nodup b').not_mem_erase (he ▸ hu)
              rw [hpri, hk₁, K.setTcb_ne hne]
        · refine .frame ((hsig.other b' hb).trans ?_) ?_ ?_ fun u _ => ?_
          · rw [K.setMbf_ne hb, hk₁]
            rfl
          · rw [List.append_nil, List.nil_append, sentOn_map_ne _ _ (Ne.symm hb)]
          · rw [List.append_nil, List.nil_append, receivedOn_map]
          · exact congrFun (hsig.msg.trans hmsg) u
    · rename_i ha
      rw [hk₁]
      refine ⟨_, rfl, setTcb_acted h rfl rfl fun b' ha' hm => absurd ?_ ha⟩
      rw [h.swait.mem] at ht hm
      rw [ht] at hm
      rwa [Option.some.inj hm]
  · exact ⟨_, changePriority_ne htst, setTcb_acted h rfl rfl fun b _ hm =>
      absurd hm (h.not_mem_swaits htst)⟩

theorem initWaitQueue_mbfcb (k : K) (q : List Nat) : (k.initWaitQueue q).mbfcb = k.mbfcb := by
  induction q generalizing k with
  | nil => rfl
  | cons t q ih => exact ih (k.makeNonWait t E_DLT)

theorem initWaitQueue_setMbf (k : K) (q : List Nat) :
    (k.initWaitQueue q).setMbf b p = (k.setMbf b p).initWaitQueue q := by
  induction q generalizing k with
  | nil => rfl
  | cons t q ih => exact ih (k.makeNonWait t E_DLT)

theorem Inv.initWaitQueue (h : Inv cfg (q ++ x) k) : Inv cfg x (k.initWaitQueue q) := by
  induction q generalizing k with
  | nil => exact h
  | cons t q ih => exact ih (h.makeNonWait E_DLT)

theorem initWaitQueue_msg (k : K) (q : List Nat) : (k.initWaitQueue q).msg = k.msg := by
  induction q generalizing k with
  | nil => rfl
  | cons t q ih => exact (ih (k.makeNonWait t E_DLT)).trans (K.makeNonWait_msg ..)

/-- The ends of the waits are entered. -/
theorem initWaitQueue_ended (k : K) (q : List Nat) : ∃ l, (k.initWaitQueue q).ended = k.ended ++ l ∧
    (∀ b, sentOn b l = [] ∧ receivedOn b l = []) ∧
    ∀ t, k.pending t = sendsOf t l ++ (k.initWaitQueue q).pending t := by
  induction q generalizing k with
  | nil => exact ⟨[], (List.append_nil _).symm, fun _ => ⟨rfl, rfl⟩, fun _ => rfl⟩
  | cons t q ih =>
    obtain ⟨l, he, hl, hc⟩ := ih (k.makeNonWait t E_DLT)
    obtain ⟨b, hmbf⟩ : ∃ b, (k.tcb t).winfo.mbfcb = b := ⟨_, rfl⟩
    refine ⟨(k.tcb t).ending t (some E_DLT) :: l, ?_, fun b => ?_, fun u => ?_⟩
    · refine he.trans ?_
      exact List.append_assoc ..
    · rw [← List.singleton_append, sentOn_append, receivedOn_append, (hl b).1, (hl b).2]
      unfold TCB.ending
      split
      · exact ⟨rfl, rfl⟩
      · exact ⟨rfl, rfl⟩
    · have hu := hc u
      rw [← List.singleton_append, sendsOf_append, List.append_assoc]
      change _ = _ ++ (_ ++ ((k.makeNonWait t E_DLT).initWaitQueue q).pending u)
      rw [← hu, K.pending, K.pending, K.makeNonWait_tcb]
      by_cases hs : (k.tcb t).tstat = .waitSmbf
      · have hend : (k.tcb t).ending t (some E_DLT) =
            .sendFailed t b (k.msg t) (some E_DLT) := by
          unfold TCB.ending
          rw [hs, hmbf]
          rfl
        rw [hend, sendsOf_sendFailed, ask]
        by_cases hut : u = t
        · subst hut
          rw [if_pos rfl, if_pos rfl, TCB.pending, if_pos hs, hmbf]
          rfl
        · rw [if_neg hut, if_neg hut]
          rfl
      · have hend : sendsOf u [(k.tcb t).ending t (some E_DLT)] = [] := by
          unfold TCB.ending
          cases ht : (k.tcb t).tstat with
          | waitSmbf => exact absurd ht hs
          | dormant => rfl
          | runnable => rfl
          | waitRmbf => rfl
        rw [hend]
        by_cases hut : u = t
        · subst hut
          rw [if_pos rfl, TCB.pending, if_neg hs]
          rfl
        · rw [if_neg hut]
          rfl

/-- A buffer is empty, and the tasks that have waited there are left over. -/
theorem Inv.clear (h : Inv cfg [] k) (b : Nat) :
    Inv cfg (k.swaits b ++ k.rwaits b) (k.setMbf b (.init (cfg.mbfinib b) (k.mbfcb b).mbfmb)) := by
  refine h.setMbf ?_ ?_ ⟨[], init_holds ..⟩ (fun hn => absurd rfl hn) fun _ => .nil
  · intro b'
    by_cases hb : b' = b
    · subst hb
      rw [Function.update_self]
      refine ⟨List.nodup_nil, fun t => ⟨nofun, fun ht => ?_⟩⟩
      obtain ⟨hx, ht⟩ := K.sloc_eq.1 ht
      exact absurd (List.mem_append_left _ (h.mem_swaits.2 ⟨List.not_mem_nil, ht⟩)) hx
    · rw [Function.update_of_ne hb]
      refine ⟨h.swait.nodup b', fun t => h.mem_swaits.trans ?_⟩
      rw [K.sloc_eq]
      refine ⟨fun ht => ⟨fun hx => ?_, ht.2⟩, fun ht => ⟨List.not_mem_nil, ht.2⟩⟩
      rcases List.mem_append.1 hx with hx | hx
      · exact hb (ht.2.2.symm.trans (h.mem_swaits.1 hx).2.2)
      · have hr := (h.mem_rwaits.1 hx).2.1
        rw [ht.2.1] at hr
        cases hr
  · intro b'
    by_cases hb : b' = b
    · subst hb
      rw [Function.update_self]
      refine ⟨List.nodup_nil, fun t => ⟨nofun, fun ht => ?_⟩⟩
      obtain ⟨hx, ht⟩ := K.rloc_eq.1 ht
      exact absurd (List.mem_append_right _ (h.mem_rwaits.2 ⟨List.not_mem_nil, ht⟩)) hx
    · rw [Function.update_of_ne hb]
      refine ⟨h.rwait.nodup b', fun t => h.mem_rwaits.trans ?_⟩
      rw [K.rloc_eq]
      refine ⟨fun ht => ⟨fun hx => ?_, ht.2⟩, fun ht => ⟨List.not_mem_nil, ht.2⟩⟩
      rcases List.mem_append.1 hx with hx | hx
      · have hs := (h.mem_swaits.1 hx).2.1
        rw [ht.2.1] at hs
        cases hs
      · exact hb (ht.2.2.symm.trans (h.mem_rwaits.1 hx).2.2)

/-- A buffer is initialised. -/
theorem iniMbf_acted (h : Inv cfg [] k) (hid : K.validMbfid cfg mbfid = true) :
    (k.iniMbf cfg mbfid).1 = some E_OK ∧ Acted cfg m k (k.iniMbf cfg mbfid).2 (fun _ => [])
      (fun _ => False) (fun b => b = index mbfid) := by
  obtain ⟨b, hb⟩ : ∃ b, index mbfid = b := ⟨_, rfl⟩
  have heq : k.iniMbf cfg mbfid = (some E_OK,
      K.initWaitQueue ((k.setMbf b (.init (cfg.mbfinib b) (k.mbfcb b).mbfmb)).initWaitQueue
        (k.swaits b)) (k.rwaits b)) := by
    unfold K.iniMbf
    rw [hid, hb, ← initWaitQueue_setMbf, ← initWaitQueue_setMbf]
    rfl
  obtain ⟨k₁, hk₁⟩ : ∃ k₁, k₁ = k.setMbf b (.init (cfg.mbfinib b) (k.mbfcb b).mbfmb) := ⟨_, rfl⟩
  rw [← hk₁] at heq
  rw [heq, hb]
  have h1 : Inv cfg (k.rwaits b) (k₁.initWaitQueue (k.swaits b)) := (hk₁ ▸ h.clear b).initWaitQueue
  obtain ⟨k₂, hk₂⟩ : ∃ k₂, k₂ = k₁.initWaitQueue (k.swaits b) := ⟨_, rfl⟩
  rw [← hk₂] at h1
  have hinv : Inv cfg [] (k₂.initWaitQueue (k.rwaits b)) :=
    Inv.initWaitQueue (by rwa [List.append_nil])
  obtain ⟨l₁, he₁, hl₁, hc₁⟩ := initWaitQueue_ended k₁ (k.swaits b)
  obtain ⟨l₂, he₂, hl₂, hc₂⟩ := initWaitQueue_ended k₂ (k.rwaits b)
  rw [← hk₂] at he₁ hc₁ ⊢
  have hm : (k₂.initWaitQueue (k.rwaits b)).mbfcb = k₁.mbfcb := by
    rw [initWaitQueue_mbfcb, hk₂, initWaitQueue_mbfcb]
  have hmsg : (k₂.initWaitQueue (k.rwaits b)).msg = k.msg := by
    rw [initWaitQueue_msg, hk₂, initWaitQueue_msg, hk₁]
    rfl
  refine ⟨rfl, hinv, l₁ ++ l₂, ?_, fun t => ?_, fun b' => ?_⟩
  · rw [he₂, he₁, hk₁, ← List.append_assoc]
    rfl
  · rw [List.append_nil, sendsOf_append, List.append_assoc, ← hc₂, ← hc₁, hk₁]
    rfl
  · have hs : sentOn b' (l₁ ++ l₂) = [] := by rw [sentOn_append, (hl₁ b').1, (hl₂ b').1]; rfl
    have hr : receivedOn b' (l₁ ++ l₂) = [] := by
      rw [receivedOn_append, (hl₁ b').2, (hl₂ b').2]
      rfl
    by_cases hb' : b' = b
    · subst hb'
      have hmb : (k₂.initWaitQueue (k.rwaits b')).mbfcb b' =
          .init (cfg.mbfinib b') (k.mbfcb b').mbfmb := by
        rw [hm, hk₁, K.setMbf_self]
      have hsw : (k₂.initWaitQueue (k.rwaits b')).swaits b' = [] := congrArg MBFCB.swaitQueue hmb
      refine ⟨fun hn => absurd rfl hn, fun hn => absurd rfl hn,
        fun _ => ⟨hs, hr, Holds.stored (hmb ▸ init_holds ..), hsw⟩,
        fun _ => ⟨fun _ => id, fun _ u q hu => ?_⟩⟩
      rw [hsw] at hu
      cases hu
    · rw [eq_false hb']
      refine .frame ?_ hs hr fun u _ => congrFun hmsg u
      rw [hm, hk₁, K.setMbf_ne hb']

end AspKernel.Mbf
