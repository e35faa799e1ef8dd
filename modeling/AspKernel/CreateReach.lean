import AspKernel.Create
import AspKernel.Inert

namespace AspKernel
set_option autoImplicit true

section
variable {cfg : Cfg} {k k' : Kernel} {x : ObjKind} {call : Call} {id : ID}

/-- The codes of the checks. -/
theorem checks_code (c : Core) (call : Call) : ∀ p ∈ call.checks cfg c,
    p.2 ∈ [E_CTX, E_ID, E_PAR, E_RSATR, E_NOSPT, E_ILUSE] := by
  have h : (call.checks cfg c).all
      (fun p => decide (p.2 ∈ [E_CTX, E_ID, E_PAR, E_RSATR, E_NOSPT, E_ILUSE])) = true := by
    cases call <;> rfl
  exact fun p hp => of_decide_eq_true (List.all_eq_true.1 h p hp)

theorem ne_noid_of_code {e : ER} (h : e ∈ [E_CTX, E_ID, E_PAR, E_RSATR, E_NOSPT, E_ILUSE]) :
    e ≠ E_NOID ∧ e < 0 := by
  have hall : ∀ e ∈ [E_CTX, E_ID, E_PAR, E_RSATR, E_NOSPT, E_ILUSE], e ≠ E_NOID ∧ e < 0 := by decide
  exact hall e h

theorem toId_pos (i : Nat) : 0 < toId i := by
  unfold toId
  omega

theorem index_toId (i : Nat) : index (toId i) = i := by
  unfold index toId
  omega

/-- The identifier that `acre_yyy` returns is that of the first free control block, which is in use
afterwards. -/
theorem Acre.toId (h : Acre cfg k call x r) (he : r.ercd = some id) (hp : 0 < id) :
    ∃ i a, id = toId i ∧ k.core.freeList x = i :: r.st.core.freeList x ∧
      r.st.core.atr x = Function.update (k.core.atr x) i a ∧ (call.attrOk → a ≠ TA_NOEXS) := by
  cases h with
  | check hpm hf =>
    rename_i p
    have hneg := (ne_noid_of_code (checks_code _ call p hpm)).2
    rw [Option.some.inj he] at hneg
    exact absurd hp (Int.not_lt.2 (Int.le_of_lt hneg))
  | noid hl hf =>
    rw [← Option.some.inj he] at hp
    exact absurd hp (by decide)
  | nomem hl hf =>
    rw [← Option.some.inj he] at hp
    exact absurd hp (by decide)
  | created hl hf ha hA hg hm hw => exact ⟨_, _, (Option.some.inj he).symm, hf, ha, hA⟩

/-- A call that creates or deletes objects is `acre_yyy` or `del_yyy`. -/
theorem kinds_cases (h : call.kinds x) : call.acre = some x ∨ ∃ id, call.del = some (x, id) := by
  cases call <;> first
    | exact h.elim
    | exact .inl (congrArg some (Eq.symm h))
    | exact .inr ⟨_, congrArg (fun y => some (y, _)) (Eq.symm h)⟩

theorem kinds_of_del (h : call.del = some (x, id)) : call.kinds x := by
  cases call <;> cases h <;> rfl

theorem del_of_acre (h : call.acre = some x) : call.del = none := by
  cases call <;> first | rfl | cases h

theorem valid_of_del (h : call.del = some (x, id))
    (hl : ∀ p ∈ call.checks cfg k.core, p.1 = true) : (cfg.num x).valid id = true := by
  cases call <;> cases h <;> exact hl _ (.tail _ (.head _))

/-- `acre_yyy` changes nothing, or it takes a control block that was not in use. -/
theorem Acre.atr (h : Acre cfg k call x r) (hf : ∀ i ∈ k.core.freeList x, k.core.atr x i = TA_NOEXS)
    (hi : k.core.atr x i ≠ TA_NOEXS) : r.st.core.atr x i ≠ TA_NOEXS := by
  cases h with
  | created hl hfr ha hA hg hm hw =>
    rename_i j _ _ _
    have hne : i ≠ j := fun he => hi (he ▸ hf j (hfr ▸ List.mem_cons_self ..))
    simp only
    rw [ha, Function.update_of_ne hne]
    exact hi
  | _ => exact hi

/-- `del_yyy` changes nothing, or it gives `E_OK` and the control block is free afterwards. -/
theorem Del.atr (h : Del cfg k call x id r) (hc : call.del = some (x, id)) :
    r.ercd ≠ some E_OK ∧ r.st = k ∨ r.ercd = some E_OK ∧ toId (index id) = id ∧
      r.st.core.freeList x = k.core.freeList x ++ [index id] ∧
      r.st.core.atr x = Function.update (k.core.atr x) (index id) TA_NOEXS := by
  cases h with
  | check hp hf =>
    rename_i p
    refine .inl ⟨fun he => ?_, rfl⟩
    have hneg := (ne_noid_of_code (checks_code _ call p hp)).2
    rw [Option.some.inj he] at hneg
    exact absurd hneg (by decide)
  | noexs hn => exact .inl ⟨fun he => absurd (Option.some.inj he) (by decide), rfl⟩
  | obj => exact .inl ⟨fun he => absurd (Option.some.inj he) (by decide), rfl⟩
  | deleted hl hd hn hf ha hg =>
    exact .inr ⟨rfl, (ObjNum.valid_index (valid_of_del hc hl)).2, hf, ha⟩

/-- An object that exists ceases to exist by `del_yyy` only, which makes its control block free. -/
theorem deleted_iff (h : RunInv cfg k.core) (hr : ∀ x, ∀ i ∈ k.core.freeList x, cfg.dyn x i)
    (hs : Step cfg k e k') (hi : k.core.atr x i ≠ TA_NOEXS) :
    (k'.core.atr x i = TA_NOEXS ↔ ∃ call, e = .call call ∧ call.del = some (x, toId i) ∧
      (exec cfg k call).ercd = some E_OK) ∧
    (k'.core.atr x i = TA_NOEXS → i ∈ k'.core.freeList x) := by
  -- A step that keeps the object is no successful deletion of it.
  have keep (hk : k'.core.atr x i ≠ TA_NOEXS) (hn : ∀ call, e = .call call →
      call.del = some (x, toId i) → (exec cfg k call).ercd ≠ some E_OK) :
      (k'.core.atr x i = TA_NOEXS ↔ ∃ call, e = .call call ∧ call.del = some (x, toId i) ∧
        (exec cfg k call).ercd = some E_OK) ∧
      (k'.core.atr x i = TA_NOEXS → i ∈ k'.core.freeList x) :=
    ⟨⟨fun h => absurd h hk, fun ⟨call, he, hd, hok⟩ => absurd hok (hn call he hd)⟩,
      fun h => absurd h hk⟩
  by_cases hK : e.kinds x
  · cases e with
    | call call =>
      obtain ⟨_, rfl⟩ := step_call hs
      have hal := (settle_alike (exec cfg k call)).exist x
      rcases kinds_cases hK with hc | ⟨id, hc⟩
      · refine keep ?_ fun c he hd => ?_
        · rw [hal.2]
          exact (exec_acre _ (fun x i hi => (hr x i hi).2) hc).atr (fun i hf =>
            (Core.noexs_iff _ x i).1 (h.inv.noexs_of_free hf)) hi
        · cases he
          rw [del_of_acre hc] at hd
          cases hd
      · have hid {c : Call} (he : Event.call call = .call c) (hd : c.del = some (x, toId i)) :
            index id = i := by
          cases he
          rw [hc] at hd
          rw [(Prod.mk.inj (Option.some.inj hd)).2, index_toId]
        rcases (exec_del cfg k hc).atr hc with ⟨hne, hst⟩ | ⟨hok, hv, hf, ha⟩
        · refine keep ?_ fun c he _ => ?_
          · rw [hal.2, hst]
            exact hi
          · cases he
            exact hne
        · by_cases hii : index id = i
          · subst hii
            rw [hal.1, hal.2, ha, hf, Function.update_self]
            exact ⟨⟨fun _ => ⟨call, rfl, by rw [hv, hc], hok⟩, fun _ => rfl⟩, fun _ =>
              List.mem_append_right _ (List.mem_singleton_self _)⟩
          · refine keep ?_ fun c he hd => absurd (hid he hd) hii
            rw [hal.2, ha, Function.update_of_ne (Ne.symm hii)]
            exact hi
    | _ => exact hK.elim
  · refine keep ?_ fun c he hd => ?_
    · rw [(h.same hs hK).2]
      exact hi
    · subst he
      exact absurd (kinds_of_del hd) hK

end

end AspKernel
