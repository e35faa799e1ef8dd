import AspKernel.Comm
import AspKernel.Lib.Chain

namespace AspKernel
set_option autoImplicit true

open Chain (Chained)

/-- A pointer to a message header. -/
def ptr (a : Addr) : Option Addr := if a = 0 then none else some a

def nextMsg (msg : Addr → T_MSG) (a : Addr) : Option Addr := ptr (msg a).pkNext

/-- The messages in a mailbox, in their order. -/
def messages (k : Kernel) (i : Nat) : List Addr :=
  Chain.walk (nextMsg k.msg) (2 ^ 32) (ptr (k.mbx i).pkHead)

/-- The list of the messages in a mailbox; `pri` says that they are in the order of their
priorities. -/
structure MbxOk (pri : Bool) (k : Kernel) (i : Nat) : Prop where
  chained : Chained (nextMsg k.msg) (ptr (k.mbx i).pkHead) (messages k i)
  last : pri = false → messages k i ≠ [] → (messages k i).getLast? = some (k.mbx i).pkLast
  sorted : pri = true → (messages k i).Pairwise fun a b => (k.msg a).msgpri ≤ (k.msg b).msgpri

theorem ptr_of_ne (h : a ≠ 0) : ptr a = some a := if_neg h

theorem ptr_eq_some (h : ptr a = some b) : a = b ∧ b ≠ 0 := by
  unfold ptr at h
  split at h
  · cases h
  · rename_i hn
    cases h
    exact ⟨rfl, hn⟩

theorem ptr_eq_none : ptr a = none ↔ a = 0 := by
  unfold ptr
  split
  · rename_i h
    exact ⟨fun _ => h, fun _ => rfl⟩
  · rename_i h
    exact ⟨nofun, fun he => absurd he h⟩

theorem nodup_length_le {l : List Addr} (h : l.Nodup) : l.length ≤ 2 ^ 32 := by
  have hn : (l.map BitVec.toNat).Nodup := h.map fun _ _ => BitVec.eq_of_toNat_eq
  have hs : (l.map BitVec.toNat).Subperm (List.range (2 ^ 32)) := hn.subperm fun n hn => by
    obtain ⟨a, -, rfl⟩ := List.mem_map.1 hn
    exact List.mem_range.2 a.isLt
  have hl := hs.length_le
  rwa [List.length_map, List.length_range] at hl

theorem messages_eq (h : Chained (nextMsg k.msg) (ptr (k.mbx i).pkHead) l) : messages k i = l :=
  h.walk_eq (nodup_length_le h.nodup)

theorem nextMsg_update (msg : Addr → T_MSG) (a x : Addr) :
    nextMsg (Function.update msg a { msg a with pkNext := x }) =
      Function.update (nextMsg msg) a (ptr x) :=
  Function.comp_update (fun m : T_MSG => ptr m.pkNext) msg a _

theorem msgpri_update (msg : Addr → T_MSG) (a x : Addr) (b : Addr) :
    (Function.update msg a { msg a with pkNext := x } b).msgpri = (msg b).msgpri := by
  by_cases h : b = a
  · subst h
    rw [Function.update_self]
  · rw [Function.update_of_ne h]

/-- The search of `enqueue_msg_pri` is that of a list. -/
theorem searchMsg_eq (msg : Addr → T_MSG) (head : Addr) (msgpri : PRI) (n : Nat) (prev : Addr) :
    ptr (searchMsg msg head msgpri n prev) =
      Chain.search (nextMsg msg) (ptr head) (fun a => decide (msgpri < (msg a).msgpri)) n
        (ptr prev) := by
  induction n generalizing prev with
  | zero => rfl
  | succ n ih =>
    unfold searchMsg Chain.search
    have hn : (ptr prev).elim (ptr head) (nextMsg msg) =
        ptr (if prev = 0 then head else (msg prev).pkNext) := by
      unfold ptr
      split <;> rfl
    rw [hn]
    simp only
    by_cases hz : (if prev = 0 then head else (msg prev).pkNext) = 0
    · rw [if_pos hz, ptr_eq_none.2 hz]
    · rw [if_neg hz, ptr_of_ne hz]
      simp only [gt_iff_lt, decide_eq_true_eq]
      rw [apply_ite ptr, ih, ptr_of_ne hz]

/-- What a call does to a mailbox. A message goes in with its priority. -/
def Call.mbxOp (msg : Addr → T_MSG) : Call → Option (ID × Op (Addr × PRI))
  | .sndMbx id pkMsg => some (id, .send (pkMsg, (msg pkMsg).msgpri))
  | .rcvMbx id | .prcvMbx id | .trcvMbx id _ => some (id, .receive)
  | _ => none

def Out.msg? : Out → Option Addr
  | .msg a => some a
  | _ => Option.none

/-- The mailboxes with or without `TA_MPRI` as channels that hold any number of messages. -/
def mbxPort (pri : Bool) : Port (Addr × PRI) PRI where
  kind := .MBX
  sndq := none
  rcvq := .MBX
  key m := if pri then m.2 else 0
  hold k i := (⊤, (messages k i).map fun a => (a, (k.msg a).msgpri))
  op k := Call.mbxOp k.msg
  offer w := (w.pkMsg, 0)
  taken k w := (w.pkMsg, (k.msg w.pkMsg).msgpri)
  result k out := out.msg?.map fun a => (a, (k.msg a).msgpri)
  sndq_main := nofun
  rcvq_main _ := rfl
  sndq_ne := nofun
  kind_ne := nofun
  hold_core _ _ := rfl
  fits atr := atr.has TA_MPRI = pri
  op_ini k call x h := by
    cases call <;> first
      | rfl
      | cases h
  op_object k call id o h := by
    cases call <;> cases h <;> rfl

section
variable {cfg : Cfg} {k k' : Kernel} {call : Call} {id : ID} {i : Nat} {pri : Bool}

/-- What a call does that names a mailbox: to the channel, to the list of the mailbox, and to the
headers of the messages. -/
structure MbxCall (pri : Bool) (k : Kernel) (call : Call) (id : ID) (r : Res Kernel) : Prop where
  does : (mbxPort pri).Sat k call id r
  ok : MbxOk pri r.st (index id)
  other : ∀ j ≠ index id, r.st.mbx j = k.mbx j
  msg : ∀ b, r.st.msg b = k.msg b ∨ b ∈ messages k (index id) ∨ call = .sndMbx id b
  msgpri : ∀ b, (r.st.msg b).msgpri = (k.msg b).msgpri
  mem : ∀ b ∈ messages r.st (index id), b ∈ messages k (index id) ∨ call = .sndMbx id b

theorem messages_congr (hm : k'.msg = k.msg) (hb : k'.mbx i = k.mbx i) :
    messages k' i = messages k i := by
  unfold messages
  rw [hm, hb]

theorem MbxOk.congr (h : MbxOk pri k i) (hm : k'.msg = k.msg) (hb : k'.mbx i = k.mbx i) :
    MbxOk pri k' i := by
  have hl := messages_congr hm hb
  refine ⟨?_, ?_, ?_⟩
  · rw [hl, hm, hb]
    exact h.chained
  · rw [hl, hb]
    exact h.last
  · rw [hl, hm]
    exact h.sorted

theorem MbxCall.same {r : Res Kernel} (h : MbxOk pri k (index id)) (hm : r.st.msg = k.msg)
    (hb : r.st.mbx = k.mbx) (hd : (mbxPort pri).Sat k call id r) : MbxCall pri k call id r :=
  ⟨hd, h.congr hm (congrFun hb _), fun j _ => congrFun hb j, fun b => .inl (congrFun hm b),
    fun _ => congrArg T_MSG.msgpri (congrFun hm _),
    fun _ hl => .inl (messages_congr hm (congrFun hb _) ▸ hl)⟩

theorem MbxCall.err (h : MbxOk pri k (index id)) (he : e ≠ E_OK) :
    MbxCall pri k call id (.err k e) := .same h rfl rfl (.err _ he)

/-- A message goes into the list of a mailbox. -/
theorem MbxCall.put {r : Res Kernel} (h : MbxOk pri k (index id)) (hv : toId (index id) = id)
    (hl : messages k (index id) = l₁ ++ l₂) (ha : pkMsg ≠ 0) (hn : pkMsg ∉ messages k (index id))
    (hh : k.core.headTsk (.MBX, index id) = none)
    (hnext : nextMsg r.st.msg = Chain.link (nextMsg k.msg) l₁.getLast? pkMsg l₂.head?)
    (hhead : ptr (r.st.mbx (index id)).pkHead =
      if l₁ = [] then some pkMsg else ptr (k.mbx (index id)).pkHead)
    (hlast : pri = false → l₂ = [] ∧ (r.st.mbx (index id)).pkLast = pkMsg)
    (hsort : Channel.insert (mbxPort pri).key (pkMsg, (k.msg pkMsg).msgpri)
        ((messages k (index id)).map fun a => (a, (k.msg a).msgpri)) =
      (l₁ ++ pkMsg :: l₂).map fun a => (a, (k.msg a).msgpri))
    (hpri : ∀ b, (r.st.msg b).msgpri = (k.msg b).msgpri)
    (hmsg : ∀ b, b ≠ pkMsg → b ∉ messages k (index id) → r.st.msg b = k.msg b)
    (hother : ∀ j ≠ index id, r.st.mbx j = k.mbx j) (hcore : r.st.core = k.core)
    (hr : r.ercd = some E_OK) : MbxCall pri k (.sndMbx id pkMsg) id r := by
  have hc : Chained (nextMsg r.st.msg) (ptr (r.st.mbx (index id)).pkHead) (l₁ ++ pkMsg :: l₂) := by
    rw [hnext, hhead]
    have hch := h.chained
    rw [hl] at hch hn
    exact hch.insert hn
  have hlist : messages r.st (index id) = l₁ ++ pkMsg :: l₂ := messages_eq hc
  have hval : (fun a => (a, (r.st.msg a).msgpri)) = fun a => (a, (k.msg a).msgpri) :=
    funext fun a => congrArg (Prod.mk a) (hpri a)
  have hmem (b) (hb : b ∈ l₁ ++ pkMsg :: l₂) :
      b ∈ messages k (index id) ∨ Call.sndMbx id pkMsg = .sndMbx id b := by
    rw [hl]
    rcases List.mem_cons.1 (List.perm_middle.mem_iff.1 hb) with rfl | hb
    · exact .inr rfl
    · exact .inl hb
  refine ⟨.inl ?_, ⟨hlist ▸ hc, fun hp _ => ?_, fun hp => ?_⟩, hother, fun b => ?_, hpri,
    hlist ▸ hmem⟩
  · rw [hr]
    refine .put (o := .send (pkMsg, (k.msg pkMsg).msgpri)) rfl hv (.inl rfl)
      (List.head?_eq_none_iff.1 hh) (ENat.natCast_lt_top _) (.of_alike (hcore ▸ .refl _)) ?_
    refine congrArg (Prod.mk ⊤) ?_
    rw [hlist, hval, ← hsort]
    rfl
  · obtain ⟨hnil, he⟩ := hlast hp
    rw [hlist, hnil, he, List.getLast?_concat]
  · have hs : Channel.Sorted (mbxPort pri).key
        ((messages k (index id)).map fun a => (a, (k.msg a).msgpri)) := by
      refine List.pairwise_map.2 ((h.sorted hp).imp fun hab => ?_)
      subst hp
      exact hab
    have hi := hs.insert (pkMsg, (k.msg pkMsg).msgpri)
    rw [hsort] at hi
    unfold Channel.Sorted at hi
    rw [List.pairwise_map] at hi
    rw [hlist]
    refine hi.imp fun hab => ?_
    rw [hpri, hpri]
    subst hp
    exact hab
  · by_cases hb : b = pkMsg
    · exact .inr (.inr (hb ▸ rfl))
    · by_cases hbl : b ∈ messages k (index id)
      · exact .inr (.inl hbl)
      · exact .inl (hmsg b hb hbl)

theorem messages_nil (h : MbxOk pri k i) : (k.mbx i).pkHead = 0 ↔ messages k i = [] := by
  rw [← ptr_eq_none, h.chained.head_eq, List.head?_eq_none_iff]

/-- Insertion at the place of the priority of the message. -/
theorem mbxCall_pri (h : MbxOk true k (index id)) (hv : toId (index id) = id) (ha : pkMsg ≠ 0)
    (hn : pkMsg ∉ messages k (index id)) (hh : k.core.headTsk (.MBX, index id) = none) :
    MbxCall true k (.sndMbx id pkMsg) id
      (((enqueueMsgPri (2 ^ 32) ⟨⟨k.core, k.mbx⟩, k.msg⟩ (index id) pkMsg).ok .tsk false .none).map
        fun o => { k with core := o.core, mbx := o.cb, msg := o.msg }) := by
  obtain ⟨l₁, l₂, h₁, h₂⟩ : ∃ l₁ l₂,
      l₁ = (messages k (index id)).takeWhile
        (fun b => !decide ((k.msg pkMsg).msgpri < (k.msg b).msgpri)) ∧
      l₂ = (messages k (index id)).dropWhile
        fun b => !decide ((k.msg pkMsg).msgpri < (k.msg b).msgpri) := ⟨_, _, rfl, rfl⟩
  have hl : messages k (index id) = l₁ ++ l₂ := by rw [h₁, h₂, List.takeWhile_append_dropWhile]
  have hch := h.chained
  have hprev : ptr (searchMsg k.msg (k.mbx (index id)).pkHead (k.msg pkMsg).msgpri (2 ^ 32) 0) =
      l₁.getLast? := by
    rw [searchMsg_eq, h₁]
    exact Chain.Chained.search_eq (l := []) hch (nodup_length_le hch.nodup)
  have hsort : Channel.insert (mbxPort true).key (pkMsg, (k.msg pkMsg).msgpri)
      ((messages k (index id)).map fun a => (a, (k.msg a).msgpri)) =
      (l₁ ++ pkMsg :: l₂).map fun a => (a, (k.msg a).msgpri) := by
    rw [Channel.insert_eq, List.takeWhile_map, List.dropWhile_map, List.map_append, List.map_cons,
      h₁, h₂]
    rfl
  have hafter := Chained.after (hl ▸ hch)
  unfold enqueueMsgPri
  simp only
  generalize searchMsg k.msg (k.mbx (index id)).pkHead (k.msg pkMsg).msgpri (2 ^ 32) 0 = prev at hprev
  by_cases hz : prev = 0
  · rw [if_pos hz]
    have hlast : l₁.getLast? = none := hprev.symm.trans (ptr_eq_none.2 hz)
    refine .put h hv hl ha hn hh ?_ ?_ nofun hsort (msgpri_update k.msg pkMsg _) (fun b hb _ =>
      Function.update_of_ne hb ..) (fun j hj => Function.update_of_ne hj ..) rfl rfl
    · rw [hlast] at hafter ⊢
      refine (nextMsg_update k.msg pkMsg _).trans ?_
      exact congrArg (Function.update (nextMsg k.msg) pkMsg) hafter
    · rw [if_pos (List.getLast?_eq_none_iff.1 hlast)]
      refine (congrArg (fun p : MBXCB => ptr p.pkHead) (Function.update_self ..)).trans ?_
      exact ptr_of_ne ha
  · rw [if_neg hz]
    have hlast : l₁.getLast? = some prev := hprev.symm.trans (ptr_of_ne hz)
    have hmem : prev ∈ messages k (index id) :=
      hl ▸ List.mem_append_left _ (List.mem_of_getLast? hlast)
    refine .put h hv hl ha hn hh ?_ ?_ nofun hsort (fun b => ?_) (fun b hb hbl => ?_)
      (fun j hj => rfl) rfl rfl
    · rw [hlast] at hafter ⊢
      refine (nextMsg_update _ prev _).trans ?_
      refine congrArg₂ (Function.update · prev) ?_ (ptr_of_ne ha)
      refine (nextMsg_update k.msg pkMsg _).trans ?_
      exact congrArg (Function.update (nextMsg k.msg) pkMsg) hafter
    · rw [if_neg]
      · rfl
      · rintro rfl
        cases hlast
    · exact (msgpri_update _ prev _ b).trans (msgpri_update k.msg pkMsg _ b)
    · refine (Function.update_of_ne ?_ ..).trans (Function.update_of_ne hb ..)
      rintro rfl
      exact hbl hmem

/-- Insertion behind the last message. -/
theorem mbxCall_fifo (h : MbxOk false k (index id)) (hv : toId (index id) = id) (ha : pkMsg ≠ 0)
    (hn : pkMsg ∉ messages k (index id)) (hh : k.core.headTsk (.MBX, index id) = none)
    {r : Res Kernel} (hr : r.ercd = some E_OK) (hcore : r.st.core = k.core)
    (hmbx : r.st.mbx = Function.update k.mbx (index id) { k.mbx (index id) with
      pkHead := if (k.mbx (index id)).pkHead ≠ 0 then (k.mbx (index id)).pkHead else pkMsg
      pkLast := pkMsg })
    (hmsg : r.st.msg = (if (k.mbx (index id)).pkHead ≠ 0 then
        (⟨⟨k.core, k.mbx⟩, k.msg⟩ : MbxObj).setNext pkMsg 0 |>.setNext (k.mbx (index id)).pkLast pkMsg
      else (⟨⟨k.core, k.mbx⟩, k.msg⟩ : MbxObj).setNext pkMsg 0).msg) :
    MbxCall false k (.sndMbx id pkMsg) id r := by
  have hl : messages k (index id) = messages k (index id) ++ [] := (List.append_nil _).symm
  have hp : r.st.mbx (index id) = _ := (congrFun hmbx (index id)).trans (Function.update_self ..)
  have hsort : Channel.insert (mbxPort false).key (pkMsg, (k.msg pkMsg).msgpri)
      ((messages k (index id)).map fun a => (a, (k.msg a).msgpri)) =
      (messages k (index id) ++ [pkMsg]).map fun a => (a, (k.msg a).msgpri) := by
    rw [Channel.insert_append fun _ _ => le_refl _, List.map_append]
    rfl
  have hother (j) (hj : j ≠ index id) : r.st.mbx j = k.mbx j := by
    rw [hmbx, Function.update_of_ne hj]
  by_cases hz : (k.mbx (index id)).pkHead = 0
  · have hnil := (messages_nil h).1 hz
    rw [if_neg (not_not.2 hz)] at hmsg
    refine .put h hv hl ha hn hh ?_ ?_ (fun _ => ⟨rfl, by rw [hp]⟩) hsort
      (fun b => hmsg ▸ msgpri_update k.msg pkMsg _ b)
      (fun b hb _ => hmsg ▸ Function.update_of_ne hb ..) hother hcore hr
    · rw [hmsg, hnil]
      exact nextMsg_update k.msg pkMsg _
    · rw [if_pos hnil, hp, if_neg (not_not.2 hz), ptr_of_ne ha]
  · have hne : messages k (index id) ≠ [] := fun he => hz ((messages_nil h).2 he)
    have hlast := h.last rfl hne
    rw [if_pos hz] at hmsg
    refine .put h hv hl ha hn hh ?_ ?_ (fun _ => ⟨rfl, by rw [hp]⟩) hsort (fun b => ?_)
      (fun b hb hbl => ?_) hother hcore hr
    · rw [hmsg, hlast]
      refine (nextMsg_update _ (k.mbx (index id)).pkLast _).trans ?_
      refine congrArg₂ (Function.update · (k.mbx (index id)).pkLast) ?_ (ptr_of_ne ha)
      exact nextMsg_update k.msg pkMsg _
    · rw [if_neg hne, hp, if_pos hz]
    · rw [hmsg]
      exact (msgpri_update _ _ _ b).trans (msgpri_update k.msg pkMsg _ b)
    · rw [hmsg]
      refine (Function.update_of_ne ?_ ..).trans (Function.update_of_ne hb ..)
      rintro rfl
      exact hbl (List.mem_of_getLast? hlast)

theorem mbxCall_snd (h : MbxOk pri k (index id))
    (hpri : (k.core.wobjatr (.MBX, index id)).has TA_MPRI = pri)
    (hm : pkMsg ≠ 0 ∧ pkMsg ∉ messages k (index id))
    (hl : ∀ p ∈ [(k.core.ctxUnl .tsk, E_CTX), (cfg.mbx.valid id, E_ID)], p.1 = true) :
    MbxCall pri k (.sndMbx id pkMsg) id (k.onMbx (sndMbx cfg · id pkMsg)) := by
  have hv := (ObjNum.valid_index (hl _ (.tail _ (.head _)))).2
  rw [show k.onMbx (sndMbx cfg · id pkMsg) = _ from check_map hl]
  simp only
  split
  · exact .err h (by decide)
  · split
    · exact .err h (by decide)
    · cases hh : k.core.headTsk (.MBX, index id) with
      | some t =>
        have hd := hands_complete hh { (k.core.tcb t).winfo with pkMsg := pkMsg }
        refine .same h rfl rfl (.inl (.hand rfl hv (.inl rfl) hd ?_ rfl))
        exact congrArg (fun w => (w.pkMsg, (k.msg w.pkMsg).msgpri)) hd.self
      | none =>
        cases hp : pri with
        | true =>
          rw [hpri, hp]
          simp only [if_true]
          exact mbxCall_pri (hp ▸ h) hv hm.1 hm.2 hh
        | false =>
          rw [hpri, hp]
          simp only [Bool.false_eq_true, if_false]
          refine mbxCall_fifo (hp ▸ h) hv hm.1 hm.2 hh rfl ?_ ?_ rfl
          · split <;> rfl
          · by_cases hz : (k.mbx (index id)).pkHead ≠ 0
            · simp only [if_pos hz]
              rfl
            · simp only [if_neg hz]
              rfl

/-- The first message comes out of the list of a mailbox. -/
theorem mbxCall_get (h : MbxOk pri k (index id)) (ho : call.mbxOp k.msg = some (id, .receive))
    (hv : toId (index id) = id) (hal : messages k (index id) = (k.mbx (index id)).pkHead :: l)
    (hch : Chained (nextMsg k.msg) (nextMsg k.msg (k.mbx (index id)).pkHead) l) :
    MbxCall pri k call id ⟨{ k with mbx := Function.update k.mbx (index id) { k.mbx (index id) with
      pkHead := (k.msg (k.mbx (index id)).pkHead).pkNext } }, some E_OK, false,
      .msg (k.mbx (index id)).pkHead⟩ := by
  obtain ⟨k', hk⟩ : ∃ k' : Kernel, k' = { k with
      mbx := Function.update k.mbx (index id) { k.mbx (index id) with
        pkHead := (k.msg (k.mbx (index id)).pkHead).pkNext } } := ⟨_, rfl⟩
  have hp : k'.mbx (index id) = { k.mbx (index id) with
      pkHead := (k.msg (k.mbx (index id)).pkHead).pkNext } := by
    rw [hk]
    exact Function.update_self ..
  have hm : k'.msg = k.msg := by rw [hk]
  have hc : Chained (nextMsg k'.msg) (ptr (k'.mbx (index id)).pkHead) l := by
    rw [hm, hp]
    exact hch
  have hlist : messages k' (index id) = l := messages_eq hc
  rw [← hk]
  refine ⟨.inl ?_, ⟨hlist ▸ hc, fun hpri hne => ?_, fun hpri => ?_⟩, fun j hj => ?_,
    fun b => .inl (congrFun hm b), fun b => by rw [hm], fun b hb => .inl ?_⟩
  · refine .get (b := ((k.mbx (index id)).pkHead, (k.msg (k.mbx (index id)).pkHead).msgpri))
      (l := l.map fun a => (a, (k.msg a).msgpri)) ho hv rfl ?_ (.of_alike (hk ▸ .refl _)) rfl ?_
    · exact congrArg (List.map fun a => (a, (k.msg a).msgpri)) hal
    · refine congrArg (Prod.mk ⊤) ?_
      rw [hlist, hm]
  · have hlast := h.last hpri (hal ▸ List.cons_ne_nil _ _)
    rw [hlist] at hne ⊢
    rw [hal, List.getLast?_cons_of_ne_nil hne] at hlast
    rw [hlast, hp]
  · have hs := h.sorted hpri
    rw [hal] at hs
    rw [hlist, hm]
    exact (List.pairwise_cons.1 hs).2
  · rw [hk]
    exact Function.update_of_ne hj ..
  · rw [hlist] at hb
    exact hal ▸ List.mem_cons_of_mem _ hb

theorem mbxCall_rcv {m : WaitMode} (h : CallPre cfg k.core) (hok : MbxOk pri k (index id))
    (ho : call.mbxOp k.msg = some (id, .receive))
    (hl : ∀ p ∈ [(k.core.ctxMode m, E_CTX), (cfg.mbx.valid id, E_ID), (m.valid, E_PAR)],
      p.1 = true) : MbxCall pri k call id (k.onMbx (rcvMbxWith cfg · id m)) := by
  have hv := (ObjNum.valid_index (hl _ (.tail _ (.head _)))).2
  rw [show k.onMbx (rcvMbxWith cfg · id m) = _ from check_map hl]
  simp only
  split
  · exact .err hok (by decide)
  · rename_i hex
    split
    · rename_i hz
      obtain ⟨a, l, hal⟩ : ∃ a l, messages k (index id) = a :: l :=
        List.exists_cons_of_ne_nil fun he => hz ((messages_nil hok).2 he)
      have hch := hok.chained
      rw [hal] at hch
      obtain ⟨hhead, hch⟩ := hch
      obtain ⟨rfl, hne⟩ := ptr_eq_some hhead
      exact mbxCall_get hok ho hv hal hch
    · rename_i hz
      split
      · exact .err hok (by decide)
      · rename_i hp
        have hnil := (messages_nil hok).1 (not_not.1 hz)
        exact .same hok rfl rfl (.inl (.receive ho rfl (congrArg _ hnil) (blocks_waitWobj h
          (hl _ (.head _)) (hl _ (.tail _ (.tail _ (.head _)))) (Bool.eq_false_iff.2 hp)
          (Bool.eq_false_iff.2 hex) (by decide) (by decide) _) rfl))

/-- A mailbox is emptied. -/
theorem MbxCall.clear {r : Res Kernel}
    (hc : call.ini = some (.wobj .MBX, toId (index id)))
    (hb : r.st.mbx = Function.update k.mbx (index id) { k.mbx (index id) with pkHead := 0 })
    (hm : r.st.msg = k.msg) (hq : r.st.core.sched.queue (.wait (.MBX, index id)) = []) :
    MbxCall pri k call id r := by
  have hp : r.st.mbx (index id) = { k.mbx (index id) with pkHead := 0 } := by
    rw [hb, Function.update_self]
  have hch : Chained (nextMsg r.st.msg) (ptr (r.st.mbx (index id)).pkHead) [] := by
    rw [hp]
    rfl
  have hl : messages r.st (index id) = [] := messages_eq hch
  refine ⟨.inr ⟨.inl ⟨hc, congrArg _ hl⟩, rfl, hq⟩, ⟨hl ▸ hch, fun _ hn => absurd hl hn,
    fun _ => hl ▸ .nil⟩, fun j hj => ?_, fun b => .inl (congrFun hm b), fun b => by rw [hm], ?_⟩
  · rw [hb, Function.update_of_ne hj]
  · rw [hl]
    nofun

theorem mbxCall_ini (h : MbxOk pri k (index id))
    (hl : ∀ p ∈ (Call.iniMbx id).checks cfg k.core, p.1 = true) :
    MbxCall pri k (.iniMbx id) id (k.onMbx (iniMbx cfg · id)) := by
  have hv := (ObjNum.valid_index (hl _ (.tail _ (.head _)))).2
  rw [show k.onMbx (iniMbx cfg · id) = _ from check_map hl]
  simp only
  split
  · exact .err h (by decide)
  · exact .clear (by rw [hv]; rfl) rfl rfl (initWaitQueue_queue k.core _)

theorem mbxCall_del (h : MbxOk pri k (index id))
    (hl : ∀ p ∈ (Call.delMbx id).checks cfg k.core, p.1 = true) :
    MbxCall pri k (.delMbx id) id (k.onMbx (delMbx cfg · id)) := by
  have hv := (ObjNum.valid_index (hl _ (.tail _ (.head _)))).2
  rw [show k.onMbx (delMbx cfg · id) = _ from check_map hl]
  simp only
  split
  · exact .err h (by decide)
  · split
    · refine .same h rfl rfl (.inr ⟨.inr ⟨?_, rfl⟩, rfl, initWaitQueue_queue k.core _⟩)
      rw [hv]
      rfl
    · exact .err h (by decide)

theorem mbxCall_ref (h : MbxOk pri k (index id))
    (hl : ∀ p ∈ (Call.refMbx id).checks cfg k.core, p.1 = true) :
    MbxCall pri k (.refMbx id) id (k.onMbx (refMbx cfg · id)) := by
  rw [show k.onMbx (refMbx cfg · id) = _ from check_map hl]
  simp only
  split
  · exact .err h (by decide)
  · exact .same h rfl rfl (.inl (.rest (.inr ⟨rfl, rfl⟩) (.of_alike (.refl _)) rfl))

theorem mbxCall (h : CallPre cfg k.core) (hok : MbxOk pri k (index id))
    (hpri : (k.core.wobjatr (.MBX, index id)).has TA_MPRI = pri)
    (hm : ∀ a, call = .sndMbx id a → a ≠ 0 ∧ a ∉ messages k (index id))
    (ho : call.object = some (.wobj .MBX, id)) : MbxCall pri k call id (exec cfg k call) := by
  rcases exec_rejected cfg k call with ⟨e, he, hr⟩ | hl
  · rw [hr]
    exact .err hok he
  · cases call with
    | sndMbx => cases ho; exact mbxCall_snd hok hpri (hm _ rfl) hl
    | rcvMbx | prcvMbx | trcvMbx => cases ho; exact mbxCall_rcv h hok rfl hl
    | iniMbx => cases ho; exact mbxCall_ini hok hl
    | delMbx => cases ho; exact mbxCall_del hok hl
    | refMbx => cases ho; exact mbxCall_ref hok hl
    | _ => cases ho

/-- A message is in some mailbox. -/
def Kernel.queued (cfg : Cfg) (k : Kernel) (a : Addr) : Bool :=
  (List.range cfg.mbx.tmax).any fun i =>
    !k.core.noWobj (.MBX, i) && (messages k i).contains a

/-- The application sends messages that are in no mailbox, and does not modify the headers of those
that are in one. -/
def Event.msgOk (cfg : Cfg) (k : Kernel) : Event → Bool
  | .writeMsg pkMsg _ => !k.queued cfg pkMsg
  | .call (.sndMbx _ pkMsg) => pkMsg != 0 && !k.queued cfg pkMsg
  | _ => true

/-- A step of a system whose application keeps to this. -/
def Kernel.stepMsg (cfg : Cfg) (k : Kernel) (e : Event) : Option Kernel :=
  if e.msgOk cfg k then k.step cfg e else none

theorem stepMsg_some (h : k.stepMsg cfg e = some k') : e.msgOk cfg k = true ∧ Step cfg k e k' := by
  unfold Kernel.stepMsg at h
  split at h
  · rename_i hm
    exact ⟨hm, h⟩
  · cases h

theorem within_stepMsg (cfg : Cfg) : Within cfg (Kernel.stepMsg cfg) :=
  fun _ _ _ hs => (stepMsg_some hs).2

/-- The mailboxes that exist: their lists, which share no message. -/
structure MbxInv (cfg : Cfg) (k : Kernel) : Prop where
  range : ∀ i, k.core.atr (.wobj .MBX) i ≠ TA_NOEXS → i < cfg.mbx.tmax
  ok : ∀ i, k.core.atr (.wobj .MBX) i ≠ TA_NOEXS →
    MbxOk ((k.core.wobjatr (.MBX, i)).has TA_MPRI) k i
  disj : ∀ i j, k.core.atr (.wobj .MBX) i ≠ TA_NOEXS → k.core.atr (.wobj .MBX) j ≠ TA_NOEXS →
    i ≠ j → ∀ a ∈ messages k i, a ∉ messages k j

theorem MbxInv.not_queued (h : MbxInv cfg k) (ha : k.queued cfg a = false)
    (hi : k.core.atr (.wobj .MBX) i ≠ TA_NOEXS) : a ∉ messages k i := by
  intro hm
  have hn := List.any_eq_false.1 ha i (List.mem_range.2 (h.range i hi))
  rw [Bool.and_eq_true, not_and] at hn
  refine hn ?_ (List.contains_iff_mem.2 hm)
  unfold Core.noWobj
  rw [Bool.not_eq_true', beq_eq_false_iff_ne]
  exact hi

/-- Changes of headers outside of a list. -/
theorem messages_frame (h : MbxOk pri k i) (hb : k'.mbx i = k.mbx i)
    (hm : ∀ a ∈ messages k i, k'.msg a = k.msg a) :
    messages k' i = messages k i ∧ MbxOk pri k' i := by
  have hc : Chained (nextMsg k'.msg) (ptr (k'.mbx i).pkHead) (messages k i) := by
    rw [hb]
    exact h.chained.congr fun a ha => congrArg (fun m : T_MSG => ptr m.pkNext) (hm a ha)
  have hl := messages_eq hc
  refine ⟨hl, hl ▸ hc, ?_, fun hp => ?_⟩
  · rw [hl, hb]
    exact h.last
  · rw [hl]
    refine (h.sorted hp).imp_of_mem fun ha hb hab => ?_
    rw [hm _ ha, hm _ hb]
    exact hab

theorem mbx_noexs (hx : k.core.noWobj (.MBX, index id) = true)
    (ho : call.object = some (.wobj .MBX, id)) : ∃ e, exec cfg k call = .err k e := by
  rcases exec_rejected cfg k call with ⟨e, _, hr⟩ | hl
  · exact ⟨e, hr⟩
  · refine ⟨E_NOEXS, ?_⟩
    cases call with
    | sndMbx id a =>
      cases ho
      refine (show k.onMbx (sndMbx cfg · id a) = _ from check_map hl).trans ?_
      simp only [hx, if_true]
      rfl
    | rcvMbx | prcvMbx | trcvMbx =>
      cases ho
      refine (show k.onMbx (rcvMbxWith cfg · id _) = _ from check_map hl).trans ?_
      simp only [hx, if_true]
      rfl
    | iniMbx =>
      cases ho
      refine (show k.onMbx (iniMbx cfg · id) = _ from check_map hl).trans ?_
      simp only [hx, if_true]
      rfl
    | delMbx =>
      cases ho
      refine (show k.onMbx (delMbx cfg · id) = _ from check_map hl).trans ?_
      simp only [hx, if_true]
      rfl
    | refMbx =>
      cases ho
      refine (show k.onMbx (refMbx cfg · id) = _ from check_map hl).trans ?_
      simp only [hx, if_true]
      rfl
    | _ => cases ho

theorem acreMbx_mbx (h : ∀ i ∈ k.core.freeWobj .MBX, i < cfg.mbx.tmax) (pk : MBXINIB)
    (mprihd : Addr) :
    (∃ e, k.onMbx (acreMbx cfg · pk mprihd) = .err k e) ∨ ∃ i l a, k.core.freeWobj .MBX = i :: l ∧
      (k.onMbx (acreMbx cfg · pk mprihd)).st.mbx = Function.update k.mbx i ⟨pk.maxmpri, 0, a⟩ ∧
      (k.onMbx (acreMbx cfg · pk mprihd)).st.msg = k.msg := by
  rcases exec_rejected cfg k (.acreMbx pk mprihd) with ⟨e, _, hr⟩ | hl
  · exact .inl ⟨e, hr⟩
  · rw [show k.onMbx (acreMbx cfg · pk mprihd) = _ from check_map hl]
    simp only
    rcases takeWobj_cases h with ⟨ht, _⟩ | ⟨i, l, hf, ht⟩
    · rw [ht]
      exact .inl ⟨_, rfl⟩
    · rw [ht]
      exact .inr ⟨i, l, _, hf, rfl, rfl⟩

/-- The calls that name a mailbox, in a system whose application keeps to the rules. -/
theorem mbxCall_step (h : ReachBy cfg (Kernel.stepMsg cfg) k) (hv : MbxInv cfg k)
    (hs : k.stepMsg cfg (.call call) = some k') (ho : call.object = some (.wobj .MBX, id))
    (hi : k.core.atr (.wobj .MBX) (index id) ≠ TA_NOEXS) :
    MbxCall ((k.core.wobjatr (.MBX, index id)).has TA_MPRI) k call id (exec cfg k call) := by
  obtain ⟨hok, hst⟩ := stepMsg_some hs
  obtain ⟨hc, -⟩ := step_call hst
  have hr := (h.reachable (within_stepMsg cfg)).runInv
  refine mbxCall (hr.callPre hc.1) (hv.ok _ hi) rfl ?_ ho
  rintro a rfl
  obtain ⟨hz, hq⟩ := Bool.and_eq_true_iff.1 hok
  exact ⟨bne_iff_ne.1 hz, hv.not_queued ((Bool.not_eq_true' _).mp hq) hi⟩

/-- The mailboxes that a step does not name. -/
theorem mbx_other (h : ReachBy cfg (Kernel.stepMsg cfg) k) (hv : MbxInv cfg k)
    (hs : k.stepMsg cfg e = some k') (hi : k.core.atr (.wobj .MBX) i ≠ TA_NOEXS)
    (hn : ∀ call id, e = .call call → call.object = some (.wobj .MBX, id) → index id ≠ i) :
    k'.mbx i = k.mbx i ∧ ∀ a ∈ messages k i, k'.msg a = k.msg a := by
  obtain ⟨hok, hst⟩ := stepMsg_some hs
  have hr := h.reachable (within_stepMsg cfg)
  by_cases hcall : ∃ call, e = .call call
  · obtain ⟨call, rfl⟩ := hcall
    obtain ⟨hc, hk⟩ := step_call hst
    have hsame : k'.mbx = (exec cfg k call).st.mbx ∧ k'.msg = (exec cfg k call).st.msg := by
      rw [hk, settle_eq]
      exact ⟨rfl, rfl⟩
    rw [hsame.1, hsame.2]
    by_cases ho : ∃ id, call.object = some (.wobj .MBX, id)
    · obtain ⟨id, ho⟩ := ho
      by_cases hx : k.core.noWobj (.MBX, index id) = true
      · obtain ⟨e, he⟩ := mbx_noexs hx ho
        rw [he]
        exact ⟨rfl, fun _ _ => rfl⟩
      · have hj : k.core.atr (.wobj .MBX) (index id) ≠ TA_NOEXS :=
          ne_noexs (Bool.eq_false_iff.2 hx)
        have hcm := mbxCall_step h hv hs ho hj
        have hne := hn call id rfl ho
        refine ⟨hcm.other i hne.symm, fun a ha => (hcm.msg a).resolve_right ?_⟩
        rintro (hm | rfl)
        · exact hv.disj _ _ hi hj hne.symm a ha hm
        · have hq := (Bool.and_eq_true_iff.1 hok).2
          exact hv.not_queued ((Bool.not_eq_true' _).mp hq) hi ha
    · by_cases hac : call.acre = some (.wobj .MBX)
      · cases call with
        | acreMbx pk mprihd =>
          rcases acreMbx_mbx (fun i hi => (hr.range (.wobj .MBX) i hi).2) pk mprihd with
            ⟨e, he⟩ | ⟨j, l, a, hf, hb, hm⟩
          · rw [show exec cfg k (.acreMbx pk mprihd) = .err k e from he]
            exact ⟨rfl, fun _ _ => rfl⟩
          · have hji : i ≠ j := by
              rintro rfl
              exact hi (hr.runInv.inv.free.wobj .MBX i (hf ▸ List.mem_cons_self ..))
            exact ⟨(congrFun hb i).trans (Function.update_of_ne hji ..), fun a _ => congrFun hm a⟩
        | _ => cases hac
      · cases call <;> first
          | exact ⟨rfl, fun _ _ => rfl⟩
          | exact absurd ⟨_, rfl⟩ ho
          | exact absurd rfl hac
  · by_cases hw : ∃ a m, e = .writeMsg a m
    · obtain ⟨a, m, rfl⟩ := hw
      cases hst
      refine ⟨rfl, fun b hb => Function.update_of_ne ?_ ..⟩
      rintro rfl
      exact hv.not_queued ((Bool.not_eq_true' _).mp hok) hi hb
    · obtain ⟨core, rfl⟩ := step_core hst (fun c hc => hcall ⟨c, hc⟩) fun a m he => hw ⟨a, m, he⟩
      exact ⟨rfl, fun _ _ => rfl⟩

/-- A new mailbox has no messages. -/
theorem mbx_new (h : Reachable cfg k) (hs : Step cfg k e k')
    (hi : k.core.atr (.wobj .MBX) i = TA_NOEXS) (hi' : k'.core.atr (.wobj .MBX) i ≠ TA_NOEXS) :
    i < cfg.mbx.tmax ∧ Chained (nextMsg k'.msg) (ptr (k'.mbx i).pkHead) [] := by
  obtain ⟨call, rfl, hc, -, hk, ⟨l, hf⟩, herr, -⟩ := h.created hs hi hi' nofun
  cases call with
  | acreMbx pk mprihd =>
    rcases acreMbx_mbx (fun i hi => (h.range (.wobj .MBX) i hi).2) pk mprihd with
      ⟨e, he⟩ | ⟨j, l', a, hfj, hb, -⟩
    · exact absurd he (herr e)
    · obtain rfl : j = i := (List.cons.inj (hfj.symm.trans hf)).1
      have hj : j ∈ k.core.freeWobj .MBX := hf ▸ List.mem_cons_self ..
      refine ⟨(h.range (.wobj .MBX) j hj).2, ?_⟩
      have hp : k'.mbx j = ⟨pk.maxmpri, 0, a⟩ := by
        rw [hk, settle_eq]
        exact (congrFun hb j).trans (Function.update_self ..)
      rw [hp]
      rfl
  | _ => cases hc

/-- The mailboxes after a step. -/
theorem mbx_step (h : ReachBy cfg (Kernel.stepMsg cfg) k) (hv : MbxInv cfg k)
    (hs : k.stepMsg cfg e = some k') (hi' : k'.core.atr (.wobj .MBX) i ≠ TA_NOEXS) :
    i < cfg.mbx.tmax ∧ MbxOk ((k'.core.wobjatr (.MBX, i)).has TA_MPRI) k' i ∧
      ∀ b ∈ messages k' i, k.core.atr (.wobj .MBX) i ≠ TA_NOEXS ∧ b ∈ messages k i ∨
        ∃ id, e = .call (.sndMbx id b) ∧ index id = i := by
  have ht := h.reachable (within_stepMsg cfg)
  have hst := (stepMsg_some hs).2
  by_cases hi : k.core.atr (.wobj .MBX) i = TA_NOEXS
  · obtain ⟨hlt, hc⟩ := mbx_new ht hst hi hi'
    have hl := messages_eq hc
    refine ⟨hlt, ⟨hl ▸ hc, fun _ hn => absurd hl hn, fun _ => hl ▸ .nil⟩, ?_⟩
    rw [hl]
    nofun
  · have ha : k'.core.wobjatr (.MBX, i) = k.core.wobjatr (.MBX, i) := ht.atr_same hst hi hi'
    rw [ha]
    refine ⟨hv.range i hi, ?_⟩
    by_cases hn : ∀ call id, e = .call call → call.object = some (.wobj .MBX, id) → index id ≠ i
    · obtain ⟨hb, hm⟩ := mbx_other h hv hs hi hn
      obtain ⟨hl, hok⟩ := messages_frame (hv.ok i hi) hb hm
      exact ⟨hok, fun b hb => .inl ⟨hi, hl ▸ hb⟩⟩
    · push Not at hn
      obtain ⟨call, id, rfl, ho, rfl⟩ := hn
      have hcm := mbxCall_step h hv hs ho hi
      obtain ⟨-, hk⟩ := step_call hst
      have hm : k'.msg = (exec cfg k call).st.msg := by
        rw [hk, settle_eq]
      have hb : k'.mbx = (exec cfg k call).st.mbx := by
        rw [hk, settle_eq]
      refine ⟨hcm.ok.congr hm (congrFun hb _), fun b hl => ?_⟩
      rw [messages_congr hm (congrFun hb _)] at hl
      rcases hcm.mem b hl with hl | rfl
      · exact .inl ⟨hi, hl⟩
      · exact .inr ⟨id, rfl, rfl⟩

theorem ReachBy.mbxInv (h : ReachBy cfg (Kernel.stepMsg cfg) k) : MbxInv cfg k := by
  obtain ⟨es, hr⟩ := h
  induction hr with
  | nil =>
    have hl (i : Nat) : messages (boot cfg) i = [] := messages_eq (l := []) rfl
    refine ⟨fun i hi => ?_, fun i _ => ⟨?_, fun _ hn => absurd (hl i) hn, fun _ => hl i ▸ .nil⟩,
      fun i j _ _ _ a ha => ?_⟩
    · refine Nat.lt_of_lt_of_le ?_ cfg.mbx.le
      by_contra hn
      exact hi (boot_atr cfg (.wobj .MBX) (Nat.not_lt.1 hn))
    · rw [hl]
      rfl
    · rw [hl] at ha
      cases ha
  | snoc hr hs ih =>
    rename_i t e u
    have hb : ReachBy cfg (Kernel.stepMsg cfg) t := ⟨_, hr⟩
    have hstep {i} (hi : u.core.atr (.wobj .MBX) i ≠ TA_NOEXS) := mbx_step hb ih hs hi
    refine ⟨fun i hi => (hstep hi).1, fun i hi => (hstep hi).2.1, fun i j hi hj hij a ha ha' => ?_⟩
    have hsent {id j} (he : e = .call (.sndMbx id a)) (hj : t.core.atr (.wobj .MBX) j ≠ TA_NOEXS) :
        a ∉ messages t j := by
      have hok := (stepMsg_some hs).1
      rw [he] at hok
      exact ih.not_queued ((Bool.not_eq_true' _).mp (Bool.and_eq_true_iff.1 hok).2) hj
    rcases (hstep hi).2.2 a ha with ⟨hi, hm⟩ | ⟨id, he, hid⟩
    · rcases (hstep hj).2.2 a ha' with ⟨hj, hm'⟩ | ⟨id, he, hid⟩
      · exact ih.disj i j hi hj hij a hm hm'
      · exact hsent he hi hm
    · rcases (hstep hj).2.2 a ha' with ⟨hj, hm'⟩ | ⟨id', he', hid'⟩
      · exact hsent he hj hm'
      · rw [he] at he'
        cases he'
        exact hij (hid.symm.trans hid')

theorem mbx_hold (hl : messages k' i = messages k i)
    (hm : ∀ a ∈ messages k i, k'.msg a = k.msg a) : (mbxPort pri).hold k' i = (mbxPort pri).hold k i := by
  refine congrArg (Prod.mk ⊤) ?_
  rw [hl]
  exact List.map_congr_left fun a ha => by rw [hm a ha]

theorem mbx_sound (cfg : Cfg) (pri : Bool) : (mbxPort pri).Sound cfg (Kernel.stepMsg cfg) where
  within := within_stepMsg cfg
  call k call k' id h hc hs hi hf ho := by
    have hcm := mbxCall_step h h.mbxInv hs ho hi
    rw [show (k.core.wobjatr (.MBX, index id)).has TA_MPRI = pri from hf] at hcm
    exact hcm.does
  other k e k' i h hs hi hn _ := by
    obtain ⟨hb, hm⟩ := mbx_other h h.mbxInv hs hi hn
    exact mbx_hold (messages_frame (h.mbxInv.ok i hi) hb hm).1 hm
  start i := congrArg (List.map fun a => (a, ((boot cfg).msg a).msgpri))
    (messages_eq (k := boot cfg) (i := i) (l := []) rfl)
  new k call k' i h hs _ hi hi' := by
    have hc := (mbx_new (h.reachable (within_stepMsg cfg)) (stepMsg_some hs).2 hi hi').2
    exact congrArg (List.map fun a => (a, (k'.msg a).msgpri)) (messages_eq hc)

/-- The messages in a mailbox, each with its priority. -/
def mail (k : Kernel) (i : Nat) : List (Addr × PRI) :=
  (messages k i).map fun a => (a, (k.msg a).msgpri)

/-- A mailbox that exists, in every state that a system can reach whose application sends only
messages that are in no mailbox and leaves the headers of those alone that are in one: its list ends,
holds no message twice and shares none with another mailbox, its last message is known without
`TA_MPRI`, and no task waits where there is a message. It refines a channel, from which the messages
come out in the order in which they go in, or with `TA_MPRI` in the order of their priorities: in a run
that does not delete the mailbox and does not initialise it again the messages that it holds and those
that are sent with `E_OK` are those that are received and those that it holds at the end. A step that
does not name the mailbox passes on no message. A mailbox starts empty. -/
theorem reachable_mbx (h : ReachBy cfg (Kernel.stepMsg cfg) k) :
    (∀ i pri, k.core.atr (.wobj .MBX) i ≠ TA_NOEXS →
      (k.core.wobjatr (.MBX, i)).has TA_MPRI = pri →
      (Chained (nextMsg k.msg) (ptr (k.mbx i).pkHead) (messages k i) ∧ (messages k i).Nodup ∧
        (pri = false → messages k i ≠ [] → (messages k i).getLast? = some (k.mbx i).pkLast) ∧
        (pri = true → (mail k i).Pairwise fun a b => a.2 ≤ b.2) ∧
        ∀ j, k.core.atr (.wobj .MBX) j ≠ TA_NOEXS → i ≠ j → ∀ a ∈ messages k i, a ∉ messages k j) ∧
      (k.core.sched.queue (.wait (.MBX, i)) ≠ [] → messages k i = []) ∧
      (∀ e k', k.stepMsg cfg e = some k' → e.leaves (.wobj .MBX) i →
        Channel.Chan.Step (mbxPort pri).key ((mbxPort pri).chan k i)
          ((mbxPort pri).obs cfg i k e k') ((mbxPort pri).chan k' i)) ∧
      (∀ es k', Trans.Run (fun s e t => s.stepMsg cfg e = some t) k es k' →
        (∀ e ∈ es, e.leaves (.wobj .MBX) i) →
        ∃ l, Trans.observe (Kernel.stepMsg cfg) ((mbxPort pri).obs cfg i) k es = l ∧
          Channel.run (mbxPort pri).key (mail k i) l = some (mail k' i) ∧
          (mail k i ++ Channel.puts l).Perm (Channel.outs l ++ mail k' i) ∧
          (pri = false → mail k i ++ Channel.puts l = Channel.outs l ++ mail k' i) ∧
          (pri = true → ∀ msgpri, (mail k i ++ Channel.puts l).filter (·.2 = msgpri) =
            (Channel.outs l ++ mail k' i).filter (·.2 = msgpri))) ∧
      ∀ e k', k.stepMsg cfg e = some k' →
        (∀ call id, e = .call call → call.object = some (.wobj .MBX, id) → index id ≠ i) →
        messages k' i = messages k i ∧ (mbxPort pri).obs cfg i k e k' = []) ∧
    (∀ i, messages (boot cfg) i = []) ∧
    ∀ i e k', k.stepMsg cfg e = some k' → k'.core.atr (.wobj .MBX) i ≠ TA_NOEXS →
      k.core.atr (.wobj .MBX) i = TA_NOEXS ∨ (∃ call, e = .call call ∧
        call.ini = some (.wobj .MBX, toId i) ∧ (exec cfg k call).ercd = some E_OK) →
      messages k' i = [] := by
  have hv := h.mbxInv
  have ht := h.reachable (within_stepMsg cfg)
  refine ⟨fun i pri hi hf => ?_, fun i => messages_eq (k := boot cfg) (i := i) (l := []) rfl,
    fun i e k' hs hi' ho => ?_⟩
  · have hp := mbx_sound cfg pri
    have hok := hv.ok i hi
    rw [hf] at hok
    have hsort (hpri : pri = true) : (mail k i).Pairwise fun a b => a.2 ≤ b.2 :=
      List.pairwise_map.2 (hok.sorted hpri)
    refine ⟨⟨hok.chained, hok.chained.nodup, hok.last, hsort, fun j hj hij => hv.disj i j hi hj hij⟩,
      fun hn => List.map_eq_nil_iff.1 ((hp.wf h hi hf).rcv hn).1,
      fun e k' hs hl => hp.step h hs hi hf hl, fun es k' hr hl => ?_, fun e k' hs hn => ?_⟩
    · have hrun := hp.run h hi hf hr hl
      refine ⟨_, rfl, hrun, ?_⟩
      have hs : Channel.Sorted (mbxPort pri).key (mail k i) := by
        cases pri with
        | true => exact hsort rfl
        | false => exact List.pairwise_of_forall fun _ _ => le_refl _
      obtain ⟨-, hperm, hfil⟩ := Channel.run_spec hrun hs
      refine ⟨hperm, fun hpri => ?_, fun hpri => ?_⟩
      · subst hpri
        exact Channel.run_fifo hrun fun _ _ => rfl
      · subst hpri
        exact hfil
    · obtain ⟨hb, hm⟩ := mbx_other h hv hs hi hn
      exact ⟨(messages_frame hok hb hm).1,
        (Port.obs_other (p := mbxPort pri) ht (within_stepMsg cfg _ _ _ hs) hn).1⟩
  · by_cases hi : k.core.atr (.wobj .MBX) i = TA_NOEXS
    · exact messages_eq (mbx_new ht (within_stepMsg cfg _ _ _ hs) hi hi').2
    · obtain ⟨call, rfl, hc, hok⟩ := ho.resolve_left hi
      exact List.map_eq_nil_iff.1 ((mbx_sound cfg ((k.core.wobjatr (.MBX, i)).has TA_MPRI)).cleared
      h hs hi rfl hc hok)

theorem reachable_mbx_sent : ∃ k, [Event.call (.sndMbx 1 0x8000), .call (.sndMbx 1 0x8100)].foldlM
      (Kernel.stepMsg .small) (boot .small) = some k ∧ messages k 0 = [0x8000, 0x8100] ∧
    (messages k 0).getLast? = some (k.mbx 0).pkLast ∧
    ∀ es k', Trans.Run (fun s e t => s.stepMsg .small e = some t) k es k' →
      (∀ e ∈ es, e.leaves (.wobj .MBX) 0) →
      ∃ l, Trans.observe (Kernel.stepMsg .small) ((mbxPort false).obs .small 0) k es = l ∧
        [(0x8000, 0), (0x8100, 0)] ++ Channel.puts l = Channel.outs l ++ mail k' 0 := by
  have h : ([Event.call (.sndMbx 1 0x8000), .call (.sndMbx 1 0x8100)].foldlM
      (Kernel.stepMsg .small) (boot .small)).any (fun k =>
      decide (messages k 0 = [0x8000, 0x8100] ∧ mail k 0 = [(0x8000, 0), (0x8100, 0)] ∧
        k.core.atr (.wobj .MBX) 0 ≠ TA_NOEXS ∧
        (k.core.wobjatr (.MBX, 0)).has TA_MPRI = false)) = true := by
    decide +kernel
  obtain ⟨k, hk, h⟩ := (Option.any_eq_true _ _).1 h
  obtain ⟨hl, hm, ha, hf⟩ := of_decide_eq_true h
  have hd := (reachable_mbx ⟨_, Trans.Run.of_foldlM hk⟩).1 0 false ha hf
  refine ⟨k, hk, hl, hd.1.2.2.1 rfl (by rw [hl]; exact List.cons_ne_nil _ _), fun es k' hr hle => ?_⟩
  obtain ⟨l, hl', -, -, hfifo, -⟩ := hd.2.2.2.1 es k' hr hle
  exact ⟨l, hl', hm ▸ hfifo rfl⟩

end

end AspKernel
