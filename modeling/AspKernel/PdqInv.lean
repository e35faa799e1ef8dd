import AspKernel.Comm
import AspKernel.Lib.Chain

namespace AspKernel
set_option autoImplicit true

open Chain (Chained)

namespace PDQCB

def next (p : PDQCB) (j : Nat) : Option Nat := (p.mb j).pNext
def value (p : PDQCB) (j : Nat) : IntPtr × PRI := ((p.mb j).data, (p.mb j).datapri)

/-- The blocks of the queue and those of the free list. -/
def used (p : PDQCB) : List Nat := Chain.walk p.next p.count p.pHead
def free (p : PDQCB) : List Nat := Chain.walk p.next (p.unused - p.count) p.pFreelist

/-- The values in the queue, with their priorities. -/
def contents (p : PDQCB) : List (IntPtr × PRI) := p.used.map p.value

/-- The blocks that have been used are those of the queue and those of the free list. -/
structure Layout (p : PDQCB) (us fs : List Nat) : Prop where
  queue : Chained p.next p.pHead us
  list : Chained p.next p.pFreelist fs
  count : us.length = p.count
  blocks : (us ++ fs).Perm (List.range p.unused)
  unused : p.unused ≤ p.pdqcnt
  sorted : Channel.Sorted Prod.snd (us.map p.value)

def Wf (p : PDQCB) : Prop := p.Layout p.used p.free

section
variable {p : PDQCB} {us fs : List Nat}

theorem Layout.length (h : p.Layout us fs) : us.length + fs.length = p.unused := by
  have hl := h.blocks.length_eq
  rwa [List.length_append, List.length_range] at hl

theorem Layout.used_eq (h : p.Layout us fs) : p.used = us :=
  h.queue.walk_eq (Nat.le_of_eq h.count)

theorem Layout.contents_eq (h : p.Layout us fs) : p.contents = us.map p.value :=
  congrArg _ h.used_eq

theorem Layout.wf (h : p.Layout us fs) : p.Wf := by
  have hf : p.free = fs := by
    refine h.list.walk_eq ?_
    have hl := h.length
    have hc := h.count
    omega
  unfold Wf
  rwa [h.used_eq, hf]

theorem Layout.nodup (h : p.Layout us fs) : (us ++ fs).Nodup :=
  h.blocks.nodup_iff.2 List.nodup_range

theorem Layout.contents_length (h : p.Layout us fs) : p.contents.length = p.count := by
  rw [h.contents_eq, List.length_map, h.count]

theorem Layout.nil (h : p.pHead = none) (hf : p.pFreelist = none) (hc : p.count = 0)
    (hu : p.unused = 0) : p.Layout [] [] :=
  ⟨h, hf, hc.symm, hu ▸ .refl _, hu ▸ Nat.zero_le _, .nil⟩

theorem getNext_eq (p : PDQCB) (prev : Option Nat) : p.getNext prev = prev.elim p.pHead p.next := by
  cases prev <;> rfl

theorem searchPlace_eq (p : PDQCB) (datapri : PRI) (n : Nat) (prev : Option Nat) :
    p.searchPlace datapri n prev =
      Chain.search p.next p.pHead (fun j => decide (datapri < (p.mb j).datapri)) n prev := by
  induction n generalizing prev with
  | zero => rfl
  | succ n ih =>
    unfold searchPlace Chain.search
    rw [getNext_eq]
    cases prev.elim p.pHead p.next with
    | none => rfl
    | some j =>
      simp only [ih, decide_eq_true_eq]

/-- The block that is taken is in no list any more. -/
theorem Layout.allocBlock (h : p.Layout us fs) (hc : p.count < p.pdqcnt) :
    ∃ fs' n, p.allocBlock = (n, { p with
        pFreelist := fs'.head?
        unused := p.allocBlock.2.unused }) ∧ n ∉ us ++ fs' ∧ Chained p.next fs'.head? fs' ∧
      (n :: (us ++ fs')).Perm (List.range p.allocBlock.2.unused) ∧
      p.allocBlock.2.unused ≤ p.pdqcnt := by
  unfold PDQCB.allocBlock
  cases fs with
  | nil =>
    have hf : p.pFreelist = none := h.list
    rw [hf]
    have hl := h.length
    have hco := h.count
    refine ⟨[], p.unused, ?_, ?_, rfl, ?_, ?_⟩
    · rw [List.head?_nil]
    · intro hm
      exact Nat.lt_irrefl _ (List.mem_range.1 (h.blocks.mem_iff.1 hm))
    · rw [List.range_succ]
      exact (List.perm_append_singleton _ _).symm.trans (h.blocks.append_right _)
    · rw [List.length_nil] at hl
      change p.unused + 1 ≤ p.pdqcnt
      omega
  | cons a fs =>
    obtain ⟨hf, hfs⟩ := h.list
    rw [hf]
    have hn := h.nodup
    have hp : (us ++ a :: fs).Perm (a :: (us ++ fs)) := List.perm_middle
    refine ⟨fs, a, ?_, ?_, ?_, hp.symm.trans h.blocks, h.unused⟩
    · rw [← hfs.head_eq]
      rfl
    · exact (List.nodup_cons.1 (hp.nodup_iff.1 hn)).1
    · rw [← hfs.head_eq]
      exact hfs

/-- The queue after the block `j`, which holds its value, has been linked behind `prev`. -/
def linked (p : PDQCB) (prev : Option Nat) (j : Nat) : PDQCB :=
  let q := ({ p with mb := Function.update p.mb j { p.mb j with pNext := p.getNext prev } } :
    PDQCB).setNext prev (some j)
  { q with count := q.count + 1 }

theorem next_update (p : PDQCB) (j : Nat) (b : PDQMB) :
    ({ p with mb := Function.update p.mb j b } : PDQCB).next = Function.update p.next j b.pNext :=
  Function.comp_update PDQMB.pNext p.mb j b

theorem value_update (p : PDQCB) (j : Nat) (b : PDQMB) :
    ({ p with mb := Function.update p.mb j b } : PDQCB).value =
      Function.update p.value j (b.data, b.datapri) :=
  Function.comp_update (fun b : PDQMB => (b.data, b.datapri)) p.mb j b

theorem linked_eq (p : PDQCB) (prev : Option Nat) (j : Nat) :
    (p.linked prev j).next = Chain.link p.next prev j (p.getNext prev) ∧
      (p.linked prev j).value = p.value ∧
      (p.linked prev j).pHead = (if prev = none then some j else p.pHead) := by
  have hv (q : PDQCB) (i : Nat) (x : Option Nat) :
      ({ q with mb := Function.update q.mb i { q.mb i with pNext := x } } : PDQCB).value = q.value := by
    rw [value_update]
    exact Function.update_eq_self i q.value
  cases prev with
  | none => exact ⟨next_update .., hv .., rfl⟩
  | some b =>
    refine ⟨?_, ?_, rfl⟩
    · refine (next_update _ b _).trans ?_
      exact congrArg (Function.update · b (some j)) (next_update ..)
    · exact (hv _ b _).trans (hv ..)

/-- The place that `enqueue_pridata` finds keeps the queue sorted. -/
theorem linked_chained (hq : Chained p.next p.pHead us) (hc : us.length ≤ p.count) (hj : j ∉ us) :
    let r := p.linked (p.searchPlace (p.mb j).datapri p.count none) j
    ∃ us', Chained r.next r.pHead us' ∧ us'.Perm (j :: us) ∧
      us'.map r.value = Channel.insert Prod.snd (p.value j) (us.map p.value) ∧
      ∀ h l, Chained p.next h l → (∀ i ∈ l, i ∉ us) → j ∉ l → Chained r.next h l := by
  obtain ⟨l₁, l₂, h₁, h₂⟩ : ∃ l₁ l₂,
      l₁ = us.takeWhile (fun i => !decide ((p.mb j).datapri < (p.mb i).datapri)) ∧
      l₂ = us.dropWhile fun i => !decide ((p.mb j).datapri < (p.mb i).datapri) := ⟨_, _, rfl, rfl⟩
  have hus : us = l₁ ++ l₂ := by rw [h₁, h₂, List.takeWhile_append_dropWhile]
  have hprev : p.searchPlace (p.mb j).datapri p.count none = l₁.getLast? := by
    rw [searchPlace_eq, h₁]
    exact Chain.Chained.search_eq (l := []) hq hc
  rw [hprev]
  obtain ⟨hnext, hval, hhead⟩ := p.linked_eq l₁.getLast? j
  have hget : p.getNext l₁.getLast? = l₂.head? := by
    rw [getNext_eq]
    exact Chained.after (hus ▸ hq)
  rw [hget] at hnext
  refine ⟨l₁ ++ j :: l₂, ?_, ?_, ?_, fun h l hl hd hjl => ?_⟩
  · rw [hnext, hhead]
    simp only [List.getLast?_eq_none_iff]
    rw [hus] at hq hj
    exact hq.insert hj
  · rw [hus]
    exact List.perm_middle
  · rw [hval, Channel.insert_eq, List.takeWhile_map, List.dropWhile_map, List.map_append,
      List.map_cons, h₁, h₂]
    rfl
  · rw [hnext]
    refine hl.congr fun i hi => ?_
    have hij : i ≠ j := by
      rintro rfl
      exact hjl hi
    unfold Chain.link
    cases hb : l₁.getLast? with
    | none => exact Function.update_of_ne hij ..
    | some b =>
      have hib : i ≠ b := by
        rintro rfl
        exact hd i hi (hus ▸ List.mem_append_left _ (List.mem_of_getLast? hb))
      exact (Function.update_of_ne hib ..).trans (Function.update_of_ne hij ..)

theorem enqueuePridata_eq (ha : p.allocBlock = (j, q))
    (hr : r = { q with mb := Function.update q.mb j ⟨(q.mb j).pNext, data, datapri⟩ }) :
    p.enqueuePridata data datapri =
      r.linked (r.searchPlace (r.mb j).datapri r.count none) j := by
  subst hr
  unfold enqueuePridata linked
  rw [ha]
  simp only [Function.update_self]

/-- A value goes into the queue behind those of the same or a higher priority. -/
theorem Wf.enqueuePridata (h : p.Wf) (hc : p.count < p.pdqcnt) (data : IntPtr) (datapri : PRI) :
    (p.enqueuePridata data datapri).Wf ∧ (p.enqueuePridata data datapri).contents =
      Channel.insert Prod.snd (data, datapri) p.contents := by
  obtain ⟨fs, j, ha, hj, hfs, hp, hu⟩ := Layout.allocBlock h hc
  obtain ⟨u, hun⟩ : ∃ u, u = p.allocBlock.2.unused := ⟨_, rfl⟩
  rw [← hun] at ha hp hu
  obtain ⟨q, hq⟩ : ∃ q : PDQCB, q = { p with
    pFreelist := fs.head?
    unused := u
    mb := Function.update p.mb j ⟨(p.mb j).pNext, data, datapri⟩ } := ⟨_, rfl⟩
  have hqn : q.next = p.next := by
    rw [hq]
    exact (next_update ..).trans (Function.update_eq_self j p.next)
  have hqv : q.value = Function.update p.value j (data, datapri) := by
    rw [hq]
    exact value_update ..
  have hju : j ∉ p.used := fun hm => hj (List.mem_append_left _ hm)
  have hqc : q.count = p.count := by rw [hq]
  have hqh : q.pHead = p.pHead := by rw [hq]
  have hqf : q.pFreelist = fs.head? := by rw [hq]
  have hnd : (p.used ++ fs).Nodup := by
    have hn := hp.nodup_iff.2 List.nodup_range
    exact (List.nodup_cons.1 hn).2
  have hmap : p.used.map q.value = p.used.map p.value := by
    refine List.map_congr_left fun i hi => ?_
    rw [hqv]
    exact Function.update_of_ne (by rintro rfl; exact hju hi) ..
  obtain ⟨us, hus, hperm, hval, hkeep⟩ := linked_chained (p := q) (j := j)
    (by rw [hqn, hqh]; exact h.queue) (Nat.le_of_eq (hqc ▸ h.count)) hju
  rw [hmap, hqv, Function.update_self] at hval
  rw [hqn] at hkeep
  obtain ⟨r, hr⟩ : ∃ r, r = q.linked (q.searchPlace (q.mb j).datapri q.count none) j := ⟨_, rfl⟩
  have hrest : r.count = q.count + 1 ∧ r.unused = q.unused ∧ r.pdqcnt = q.pdqcnt ∧
      r.pFreelist = q.pFreelist := by
    rw [hr]
    unfold linked PDQCB.setNext
    split <;> exact ⟨rfl, rfl, rfl, rfl⟩
  rw [← hr] at hus hval hkeep
  have hlay : r.Layout us fs := by
    refine ⟨hus, ?_, ?_, ?_, ?_, ?_⟩
    · rw [hrest.2.2.2, hqf]
      refine hkeep _ _ hfs (fun i hi hm => ?_) fun hm => hj (List.mem_append_right _ hm)
      exact (List.nodup_append.1 hnd).2.2 i hm i hi rfl
    · rw [hrest.1, hperm.length_eq, hqc, List.length_cons, h.count]
    · rw [hrest.2.1, hq]
      exact (hperm.append_right fs).trans hp
    · rw [hrest.2.1, hrest.2.2.1, hq]
      exact hu
    · rw [hval]
      exact h.sorted.insert _
  rw [enqueuePridata_eq ha hq, ← hr]
  exact ⟨hlay.wf, hlay.contents_eq.trans hval⟩

/-- The first value leaves the queue, and its block goes to the free list. -/
theorem Wf.dequeuePridata (h : p.Wf) (hc : 0 < p.count) :
    p.dequeuePridata.2.Wf ∧ p.contents = p.dequeuePridata.1 :: p.dequeuePridata.2.contents := by
  obtain ⟨us, hus⟩ : ∃ us, p.used = us := ⟨_, rfl⟩
  have hl := h
  unfold Wf at hl
  rw [hus] at hl
  cases us with
  | nil =>
    have hcount := hl.count
    rw [← hcount] at hc
    cases hc
  | cons j us =>
    obtain ⟨hj, hq⟩ := hl.queue
    have hn := hl.nodup
    obtain ⟨hjn, hn'⟩ := List.nodup_cons.1 hn
    have he : p.dequeuePridata = (p.value j, { p with
        pHead := (p.mb j).pNext
        count := p.count - 1
        mb := Function.update p.mb j { p.mb j with pNext := p.pFreelist }
        pFreelist := some j }) := by
      unfold PDQCB.dequeuePridata
      rw [hj]
      rfl
    have hnext : p.dequeuePridata.2.next = Function.update p.next j p.pFreelist := by
      rw [he]
      exact next_update ..
    have hval : p.dequeuePridata.2.value = p.value := by
      rw [he]
      exact (value_update ..).trans (Function.update_eq_self j p.value)
    have hlay : p.dequeuePridata.2.Layout us (j :: p.free) := by
      refine ⟨?_, ?_, ?_, ?_, ?_, ?_⟩
      · rw [hnext, he]
        exact hq.update (fun hm => hjn (List.mem_append_left _ hm)) _
      · rw [hnext, he]
        refine ⟨rfl, ?_⟩
        rw [Function.update_self]
        exact hl.list.update (fun hm => hjn (List.mem_append_right _ hm)) _
      · rw [he]
        have hcount := hl.count
        exact (congrArg (· - 1) hcount)
      · rw [he]
        exact List.perm_middle.trans hl.blocks
      · rw [he]
        exact hl.unused
      · rw [hval]
        exact (List.pairwise_cons.1 hl.sorted).2
    refine ⟨hlay.wf, ?_⟩
    rw [hlay.contents_eq, hval, he, contents, hus]
    rfl

theorem contents_nil (h : p.count = 0) : p.contents = [] := by
  unfold contents used
  rw [h]
  rfl

theorem Wf.count_le (h : p.Wf) : p.count ≤ p.pdqcnt := by
  have hl := Layout.length h
  have hc := h.count
  have hu := h.unused
  omega

theorem setNext_pdqcnt (p : PDQCB) (prev next : Option Nat) :
    (p.setNext prev next).pdqcnt = p.pdqcnt := by
  cases prev <;> rfl

theorem enqueuePridata_pdqcnt (p : PDQCB) (data : IntPtr) (datapri : PRI) :
    (p.enqueuePridata data datapri).pdqcnt = p.pdqcnt := by
  have h : p.allocBlock.2.pdqcnt = p.pdqcnt := by
    unfold allocBlock
    cases p.pFreelist <;> rfl
  exact (setNext_pdqcnt ..).trans h

end

end PDQCB

/-- What a call does to a priority data queue. -/
def Call.pdqOp : Call → Option (ID × Op (IntPtr × PRI))
  | .sndPdq id data datapri | .psndPdq id data datapri | .ipsndPdq id data datapri
  | .tsndPdq id data datapri _ => some (id, .send (data, datapri))
  | .rcvPdq id | .prcvPdq id | .trcvPdq id _ => some (id, .receive)
  | _ => none

def Out.pridata? : Out → Option (IntPtr × PRI)
  | .pridata d p => some (d, p)
  | _ => Option.none

/-- The priority data queues as channels: the value of the highest priority comes out first. -/
def pdqPort : Port (IntPtr × PRI) PRI where
  kind := .SPDQ
  sndq := some .SPDQ
  rcvq := .RPDQ
  key := Prod.snd
  hold k i := ((k.pdq i).pdqcnt, (k.pdq i).contents)
  op _ := Call.pdqOp
  offer w := (w.data, w.datapri)
  taken _ w := (w.data, w.datapri)
  result _ := Out.pridata?
  sndq_main := by
    rintro f ⟨⟩ i
    rfl
  rcvq_main _ := rfl
  sndq_ne := nofun
  kind_ne := nofun
  hold_core _ _ := rfl
  fits _ := True
  op_ini k call x h := by
    cases call <;> first
      | rfl
      | cases h
  op_object k call id o h := by
    cases call <;> cases h <;> rfl

section
variable {cfg : Cfg} {k k' : Kernel} {call : Call} {id : ID} {i : Nat}

theorem pdq_room (h : (k.pdq i).Wf) :
    (pdqPort.chan k i).room ↔ (k.pdq i).count < (k.pdq i).pdqcnt := by
  refine Iff.trans ?_ (Nat.cast_lt (α := ℕ∞))
  unfold Channel.Chan.room
  change ((k.pdq i).contents.length : ℕ∞) < _ ↔ _
  rw [PDQCB.Layout.contents_length h]
  rfl

/-- What a call does that names a priority data queue. -/
abbrev PdqCall (k : Kernel) (call : Call) (id : ID) (r : Res Kernel) : Prop :=
  pdqPort.CallOn Kernel.pdq PDQCB.Wf k call id r

theorem pdq_hold {p : PDQCB} (h : k.pdq i = p) : pdqPort.hold k i = ((p.pdqcnt : ℕ∞), p.contents) :=
  congrArg (fun p : PDQCB => ((p.pdqcnt : ℕ∞), p.contents)) h

theorem pdqCall_ok {o : Obj PDQCB} (ctx : Ctx) (h : PdqCall k call id
    ⟨{ k with core := o.core, pdq := o.cb }, some E_OK, dspreq, out⟩) :
    PdqCall k call id ((o.ok ctx dspreq out).map fun o => { k with core := o.core, pdq := o.cb }) := by
  cases ctx with
  | tsk => exact h
  | int =>
    exact ⟨fun hw => (h.does hw).imp (·.alike (.request _ _)) (·.alike (.request _ _)), h.wf,
      h.other⟩

theorem pdqCall_snd {m : WaitMode} (h : CallPre cfg k.core)
    (ho : call.pdqOp = some (id, .send (data, datapri)))
    (hl : ∀ p ∈ [(k.core.ctxMode m, E_CTX), (cfg.pdq.valid id, E_ID), (m.valid, E_PAR),
      (decide (TMIN_DPRI ≤ datapri), E_PAR)], p.1 = true) :
    PdqCall k call id (k.onPdq (sndPdqWith cfg · id data datapri m)) := by
  have hv := (ObjNum.valid_index (hl _ (.tail _ (.head _)))).2
  rw [show k.onPdq (sndPdqWith cfg · id data datapri m) = _ from check_map hl]
  simp only [sendPridata]
  split
  · exact .err (by decide)
  · rename_i hex
    split
    · exact .err (by decide)
    · cases hh : k.core.headTsk (.RPDQ, index id) with
      | some t =>
        have hd := hands_complete hh
          { (k.core.tcb t).winfo with data := data, datapri := datapri }
        exact pdqCall_ok _ (.same rfl (.inl (.hand ho hv (.inl rfl) hd
          (congrArg (fun w => (w.data, w.datapri)) hd.self) rfl)))
      | none =>
        have hr : pdqPort.receivers k.core (index id) = [] := List.head?_eq_none_iff.1 hh
        by_cases hc : (k.pdq (index id)).count < (k.pdq (index id)).pdqcnt
        · simp only [if_pos hc]
          refine pdqCall_ok _ (.update rfl fun hw => ?_)
          obtain ⟨hw', hcont⟩ := hw.enqueuePridata hc data datapri
          refine ⟨hw', fun hold => .inl (.put ho hv (.inl rfl) hr ((pdq_room hw).2 hc)
            (.of_alike (.refl _)) ?_)⟩
          rw [pdq_hold hold, hcont, PDQCB.enqueuePridata_pdqcnt]
          rfl
        · simp only [if_neg hc]
          split
          · exact .err (by decide)
          · rename_i hp
            have hb := blocks_waitWobj h (hl _ (.head _)) (hl _ (.tail _ (.tail _ (.head _))))
              (Bool.eq_false_iff.2 hp) (Bool.eq_false_iff.2 hex) (by decide) (by decide)
              { WInfo.local with data := data, datapri := datapri }
            obtain ⟨ev, b, hw⟩ := hb.self
            refine ⟨fun hwf => .inl ?_, fun hwf => hwf, fun _ _ => rfl⟩
            exact .send ho rfl hr (fun hn => hc ((pdq_room hwf).1 hn)) hb
              (congrArg (fun w => (w.data, w.datapri)) hw) rfl

theorem pdqCall_rcv {m : WaitMode} (h : CallPre cfg k.core)
    (ho : call.pdqOp = some (id, .receive))
    (hl : ∀ p ∈ [(k.core.ctxMode m, E_CTX), (cfg.pdq.valid id, E_ID), (m.valid, E_PAR)],
      p.1 = true) : PdqCall k call id (k.onPdq (rcvPdqWith cfg · id m)) := by
  have hv := (ObjNum.valid_index (hl _ (.tail _ (.head _)))).2
  rw [show k.onPdq (rcvPdqWith cfg · id m) = _ from check_map hl]
  simp only [receivePridata]
  split
  · exact .err (by decide)
  · rename_i hex
    by_cases hc : 0 < (k.pdq (index id)).count
    · simp only [if_pos hc]
      cases hh : k.core.headTsk (.SPDQ, index id) with
      | some t =>
        refine pdqCall_ok .tsk (.update rfl fun hw => ?_)
        obtain ⟨hw', hcont⟩ := hw.dequeuePridata hc
        have hlt : (k.pdq (index id)).dequeuePridata.2.count <
            (k.pdq (index id)).dequeuePridata.2.pdqcnt :=
          Nat.lt_of_lt_of_le (Nat.sub_one_lt_of_lt hc) hw.count_le
        obtain ⟨hw'', hcont'⟩ := hw'.enqueuePridata hlt (k.core.waitPridata t).1
          (k.core.waitPridata t).2
        refine ⟨hw'', fun hold => .inl ?_⟩
        refine .refill ho hv rfl (hands_complete' hh) hcont rfl ?_
        rw [pdq_hold hold, hcont', PDQCB.enqueuePridata_pdqcnt]
        rfl
      | none =>
        refine pdqCall_ok .tsk (.update rfl fun hw => ?_)
        obtain ⟨hw', hcont⟩ := hw.dequeuePridata hc
        exact ⟨hw', fun hold => .inl (.get ho hv (List.head?_eq_none_iff.1 hh) hcont
          (.of_alike (.refl _)) rfl (pdq_hold hold))⟩
    · simp only [if_neg hc]
      have hcont : pdqPort.buf k (index id) = [] := PDQCB.contents_nil (by omega)
      cases hh : k.core.headTsk (.SPDQ, index id) with
      | some t =>
        exact pdqCall_ok .tsk (.same rfl
          (.inl (.direct ho hv rfl (hands_complete' hh) hcont rfl rfl)))
      | none =>
        simp only
        split
        · exact .err (by decide)
        · rename_i hp
          exact .same rfl (.inl (.receive ho (List.head?_eq_none_iff.1 hh) hcont
            (blocks_waitReceive h (hl _ (.head _)) (hl _ (.tail _ (.tail _ (.head _))))
              (Bool.eq_false_iff.2 hp) (Bool.eq_false_iff.2 hex) (.inr rfl)) rfl))

theorem pdqCall_ini (hl : ∀ p ∈ (Call.iniPdq id).checks cfg k.core, p.1 = true) :
    PdqCall k (.iniPdq id) id (k.onPdq (iniPdq cfg · id)) := by
  have hv := (ObjNum.valid_index (hl _ (.tail _ (.head _)))).2
  rw [show k.onPdq (iniPdq cfg · id) = _ from check_map hl]
  simp only
  split
  · exact .err (by decide)
  · refine pdqCall_ok .tsk (.update rfl fun _ => ⟨(PDQCB.Layout.nil rfl rfl rfl rfl).wf,
      fun hold => .inr ⟨.inl ⟨?_, ?_⟩, ?_⟩⟩)
    · rw [hv]
      rfl
    · exact (congrArg Prod.snd (pdq_hold hold)).trans (PDQCB.contents_nil rfl)
    · exact init2_queue k.core (.SPDQ, index id) (.RPDQ, index id)

theorem pdqCall_del (hl : ∀ p ∈ (Call.delPdq id).checks cfg k.core, p.1 = true) :
    PdqCall k (.delPdq id) id (k.onPdq (delPdq cfg · id)) := by
  have hv := (ObjNum.valid_index (hl _ (.tail _ (.head _)))).2
  rw [show k.onPdq (delPdq cfg · id) = _ from check_map hl]
  simp only
  split
  · exact .err (by decide)
  · split
    · refine pdqCall_ok .tsk (.same rfl (.inr ⟨.inr ⟨?_, rfl⟩, ?_⟩))
      · rw [hv]
        rfl
      · have hq := init2_queue k.core (.SPDQ, index id) (.RPDQ, index id)
        cases (k.core.wobjatr (.SPDQ, index id)).has TA_MBALLOC <;> exact hq
    · exact .err (by decide)

theorem pdqCall_ref (hl : ∀ p ∈ (Call.refPdq id).checks cfg k.core, p.1 = true) :
    PdqCall k (.refPdq id) id (k.onPdq (refPdq cfg · id)) := by
  rw [show k.onPdq (refPdq cfg · id) = _ from check_map hl]
  simp only
  split
  · exact .err (by decide)
  · exact pdqCall_ok .tsk (.same rfl (.inl (.rest (.inr ⟨rfl, rfl⟩) (.of_alike (.refl _)) rfl)))

theorem pdqCall (h : CallPre cfg k.core) (ho : call.object = some (.wobj .SPDQ, id)) :
    PdqCall k call id (exec cfg k call) := by
  rcases exec_rejected cfg k call with ⟨e, he, hr⟩ | hl
  · rw [hr]
    exact .err he
  · cases call with
    | sndPdq | psndPdq | ipsndPdq | tsndPdq => cases ho; exact pdqCall_snd h rfl hl
    | rcvPdq | prcvPdq | trcvPdq => cases ho; exact pdqCall_rcv h rfl hl
    | iniPdq => cases ho; exact pdqCall_ini hl
    | delPdq => cases ho; exact pdqCall_del hl
    | refPdq => cases ho; exact pdqCall_ref hl
    | _ => cases ho

theorem acrePdq_pdq (h : ∀ i ∈ k.core.freeWobj .SPDQ, i < cfg.pdq.tmax) (pk : PDQINIB)
    (mem : Addr) :
    (∃ e, k.onPdq (acrePdq cfg · pk mem) = .err k e) ∨ ∃ i l a, k.core.freeWobj .SPDQ = i :: l ∧
      (k.onPdq (acrePdq cfg · pk mem)).st.pdq = Function.update k.pdq i
        ⟨pk.pdqcnt, pk.maxdpri, a, (k.pdq i).mb, 0, none, 0, none⟩ := by
  rcases exec_rejected cfg k (.acrePdq pk mem) with ⟨e, _, hr⟩ | hl
  · exact .inl ⟨e, hr⟩
  · rw [show k.onPdq (acrePdq cfg · pk mem) = _ from check_map hl]
    simp only
    rcases takeWobj_cases h with ⟨ht, _⟩ | ⟨i, l, hf, ht⟩
    · rw [ht]
      exact .inl ⟨_, rfl⟩
    · rw [ht]
      simp only
      by_cases hm : pk.pdqcnt ≠ 0 ∧
          (if pk.pdqcnt ≠ 0 ∧ pk.pPdqmb = 0 then mem else pk.pPdqmb) = 0
      · rw [if_pos hm]
        exact .inl ⟨_, rfl⟩
      · rw [if_neg hm]
        exact .inr ⟨i, l, _, hf, rfl⟩

theorem pdq_on (cfg : Cfg) : pdqPort.On cfg Kernel.pdq PDQCB.Wf
    fun p => ((p.pdqcnt : ℕ∞), p.contents) where
  hold _ _ := rfl
  outside _ _ _ := rfl
  call _ _ _ h ho := pdqCall h ho
  acre k call h hc := by
    cases call with
    | acrePdq pk mem =>
      refine (acrePdq_pdq h pk mem).imp_right fun ⟨i, l, a, hf, he⟩ => ⟨i, l, _, hf, he, ?_⟩
      exact ⟨(PDQCB.Layout.nil rfl rfl rfl rfl).wf, PDQCB.contents_nil rfl⟩
    | _ => cases hc
  other k call ho hc := by
    cases call <;> first
      | rfl
      | exact absurd rfl (ho _)
      | exact absurd rfl hc
  start i := ⟨(PDQCB.Layout.nil rfl rfl rfl rfl).wf, PDQCB.contents_nil rfl⟩

end

end AspKernel
