import AspKernel.AssignId

namespace AspKernel.Itronx
set_option autoImplicit true

section Names
variable {ks ks' : List Kind} {k : Kind} {a b : StaticApi} {apis : List StaticApi} {n : Str}

theorem lookup_ne_none : lookup ks n ≠ none ↔ ∃ k ∈ ks, ∃ b, k.created = some (n, b) := by
  induction ks using List.reverseRecOn with
  | nil =>
    constructor
    · intro h
      exact absurd rfl h
    · rintro ⟨k, hk, -⟩
      cases hk
  | append_singleton ks k ih =>
    simp only [List.mem_append, List.mem_singleton, or_and_right, exists_or, exists_eq_left]
    rw [← ih]
    cases hc : k.created with
    | none =>
      rw [lookup_other ks hc]
      simp only [reduceCtorEq, exists_false, or_false]
    | some c =>
      obtain ⟨m, b⟩ := c
      rw [lookup_created ks hc]
      by_cases hm : n = m
      · subst hm
        rw [Function.update_self]
        exact iff_of_true (Option.some_ne_none b) (.inr ⟨b, rfl⟩)
      · rw [Function.update_of_ne hm]
        constructor
        · intro h
          exact .inl h
        · rintro (h | ⟨b', h⟩)
          · exact h
          · exact absurd (Prod.mk.inj (Option.some.inj h)).1.symm hm

theorem AllAdmissible.at (h : AllAdmissible ks (ks₁ ++ k :: ks₂)) : Admissible (ks ++ ks₁) k := by
  induction ks₁ generalizing ks with
  | nil =>
    rw [List.append_nil]
    exact h.1
  | cons k' ks₁ ih =>
    rw [List.append_cons]
    exact ih h.2

/-- A name that is created with a number of its own is not there before. -/
theorem AllAdmissible.pairwise (h : AllAdmissible ks ks') :
    ks'.Pairwise fun k k' => ∀ n b, k.created = some (n, b) → k' ≠ .auto n := by
  rw [List.pairwise_iff_forall_sublist]
  intro k k' hsub n b hk hk'
  subst hk'
  obtain ⟨r₁, r₂, rfl, h₁, h₂⟩ := List.cons_sublist_iff.1 hsub
  obtain ⟨l₁, l₂, rfl⟩ := List.append_of_mem (List.singleton_sublist.1 h₂)
  rw [← List.append_assoc] at h
  have hnone : lookup (ks ++ (r₁ ++ l₁)) n = none := h.at
  refine lookup_ne_none.2 ⟨k, ?_, b, hk⟩ hnone
  exact List.mem_append_right _ (List.mem_append_left _ h₁)

theorem creates_iff (h : a.kind = some k) : a.creates = some n ↔ ∃ b, k.created = some (n, b) := by
  unfold StaticApi.creates
  rcases a.cases with ⟨hpos, hk, -⟩ | ⟨-, -, hk⟩ | ⟨p, hp, hcase⟩
  · cases h.symm.trans hk
    unfold StaticApi.idParam Kind.created
    rw [if_pos hpos, Option.map_none, ite_self]
    simp only [reduceCtorEq, exists_false]
  · cases h.symm.trans hk
  · rw [hp, Option.map_some]
    rcases hcase with ⟨hs, hk, -⟩ | ⟨hs, -, hk, -⟩ | ⟨hs, -, hk, -⟩
    · cases h.symm.trans hk
      rw [if_pos hs]
      unfold Kind.created
      simp only [reduceCtorEq, exists_false]
    · cases h.symm.trans hk
      rw [if_neg hs]
      unfold Kind.created
      simp only [Option.some.injEq, Prod.mk.injEq, exists_and_left, exists_eq', and_true]
    · cases h.symm.trans hk
      rw [if_neg hs]
      unfold Kind.created
      simp only [Option.some.injEq, Prod.mk.injEq, exists_and_left, exists_eq', and_true]

theorem slaveOf_iff (h : a.kind = some k) : a.slaveOf = some n ↔ k = .slave a.info.apiName n := by
  unfold StaticApi.slaveOf
  rcases a.cases with ⟨hpos, hk, -⟩ | ⟨-, -, hk⟩ | ⟨p, hp, hcase⟩
  · cases h.symm.trans hk
    unfold StaticApi.idParam
    rw [if_pos hpos, Option.map_none, ite_self]
    simp only [reduceCtorEq]
  · cases h.symm.trans hk
  · rw [hp, Option.map_some]
    rcases hcase with ⟨hs, hk, -⟩ | ⟨hs, -, hk, -⟩ | ⟨hs, -, hk, -⟩
    · cases h.symm.trans hk
      rw [if_pos hs]
      simp only [Option.some.injEq, Kind.slave.injEq, true_and]
    · cases h.symm.trans hk
      rw [if_neg hs]
      simp only [reduceCtorEq]
    · cases h.symm.trans hk
      rw [if_neg hs]
      simp only [reduceCtorEq]

theorem kind_of_auto (h : a.auto = some p) : a.kind = some (.auto p.text) := by
  obtain ⟨hs, hp, hauto⟩ := auto_eq_some.1 h
  unfold StaticApi.kind
  rw [if_neg (atPos_of_idParam hp).1, hp, Option.map_some, if_neg hs, if_pos hauto]

/-- The API after another creates the same name, or has reserved the same number. -/
def Clash (a b : StaticApi) : Prop :=
  ∃ q, b.auto = some q ∧
    (a.creates = some q.text ∨ ∃ p i, a.auto = some p ∧ p.reserved = some i ∧ q.reserved = some i)

theorem creates_of_auto (h : a.auto = some p) : a.creates = some p.text :=
  (creates_iff (kind_of_auto h)).2 ⟨true, rfl⟩

theorem names_pairwise (hk : apis.map StaticApi.kind = ks.map some) (h : AllAdmissible [] ks) :
    apis.Pairwise fun a b => ∀ q, b.auto = some q → a.creates ≠ some q.text := by
  have hks : (ks.map some).Pairwise fun o o' => ∀ k k', o = some k → o' = some k' →
      ∀ n b, k.created = some (n, b) → k' ≠ .auto n := by
    rw [List.pairwise_map]
    refine h.pairwise.imp ?_
    intro k k' hkk l l' hl hl'
    cases hl
    cases hl'
    exact hkk
  rw [← hk, List.pairwise_map] at hks
  refine hks.imp ?_
  intro a b hab q hb ha
  cases hka : a.kind with
  | none =>
    rcases a.cases with ⟨-, hk, -⟩ | ⟨-, hp, -⟩ | ⟨p, hp, hcase⟩
    · cases hka.symm.trans hk
    · unfold StaticApi.creates at ha
      rw [hp, Option.map_none, ite_self] at ha
      cases ha
    · rcases hcase with ⟨-, hk, -⟩ | ⟨-, -, hk, -⟩ | ⟨-, -, hk, -⟩
      · cases hka.symm.trans hk
      · cases hka.symm.trans hk
      · cases hka.symm.trans hk
  | some k =>
    obtain ⟨v, hv⟩ := (creates_iff hka).1 ha
    exact hab k _ hka (kind_of_auto hb) _ v hv rfl

theorem autos_pairwise {r : Parameter → Parameter → Prop} :
    (autos apis).Pairwise r ↔
      apis.Pairwise fun a b => ∀ p, a.auto = some p → ∀ q, b.auto = some q → r p q :=
  List.pairwise_filterMap

/-- The names of the identifiers are distinct. -/
theorem autos_nodup (h : apis.Pairwise fun a b => ∀ q, b.auto = some q → a.creates ≠ some q.text) :
    ((autos apis).map (·.text)).Nodup := by
  rw [List.Nodup, List.pairwise_map, autos_pairwise]
  refine h.imp ?_
  intro a b hab p ha q hb he
  exact hab q hb (he ▸ creates_of_auto ha)

/-- A slave API has its object before it, and is the only one of its name. -/
theorem slave_admissible (hk : (pre ++ a :: suf).map StaticApi.kind = ks.map some)
    (h : AllAdmissible [] ks) (ha : a.slaveOf = some n) :
    (∃ b ∈ pre, b.creates = some n) ∧
      ∀ b ∈ pre, b.info.apiName = a.info.apiName → b.slaveOf ≠ some n := by
  rw [List.map_append, List.map_cons] at hk
  obtain ⟨ks₁, ks₂, rfl, hpre, hsuf⟩ := List.map_eq_append_iff.1 hk.symm
  obtain ⟨k, ks₂, rfl, hka, -⟩ := List.map_eq_cons_iff.1 hsuf
  have hadm := h.at
  rw [List.nil_append] at hadm
  rw [(slaveOf_iff hka.symm).1 ha] at hadm
  obtain ⟨hlook, hno⟩ := hadm
  constructor
  · obtain ⟨k', hk', v, hv⟩ := lookup_ne_none.1 (hlook ▸ Option.some_ne_none true)
    have hmem : some k' ∈ pre.map StaticApi.kind := hpre ▸ List.mem_map_of_mem hk'
    obtain ⟨b, hb, hbk⟩ := List.mem_map.1 hmem
    exact ⟨b, hb, (creates_iff hbk).2 ⟨v, hv⟩⟩
  · intro b hb hapi hbn
    have hmem : b.kind ∈ ks₁.map some := hpre ▸ List.mem_map_of_mem hb
    obtain ⟨k', hk', hbk⟩ := List.mem_map.1 hmem
    rw [(slaveOf_iff hbk.symm).1 hbn, hapi] at hk'
    exact hno hk'

end Names

/-- What the configurator promises of the static APIs of one type of object. -/
structure Assigned (apis out : List StaticApi) : Prop where
  same : List.Forall₂ Revalued apis out
  numbered : ∃ ids : List Nat, (autos out).map (·.value) = ids.map (fun i : Nat => some (i : Int)) ∧
    ids.Perm (List.range' 1 (autos apis).length) ∧
    Numbering.Numbered [] ((autos apis).map (·.reserved)) ids
  slaves : ∀ pre a suf n, apis = pre ++ a :: suf → a.slaveOf = some n →
    (∃ b ∈ pre, b.creates = some n) ∧
      ∀ b ∈ pre, b.info.apiName = a.info.apiName → b.slaveOf ≠ some n

section Assign
variable {threshold : Nat} {log log' : List Diag} {apis out : List StaticApi} {idRes : List Str}

/-- The variables before the second loop. -/
def Loop.start (idRes : List Str) : Loop := ⟨1, idRes, fun _ => none, fun _ => []⟩

theorem assignId_ok (h : assignId threshold log apis = .ok (out, log')) :
    ∃ idRes s, apis.foldlM reserveId [] = .ok idRes ∧
      assignLoop (.start idRes) apis = .ok (s, out) ∧ (log' = log → [] ∉ s.idRes.tail) := by
  obtain ⟨idRes, h₁, h⟩ := bind_eq_ok.1 h
  obtain ⟨⟨s, out₂⟩, h₂, h⟩ := bind_eq_ok.1 h
  refine ⟨idRes, s, h₁, ?_⟩
  dsimp only at h
  split at h
  · obtain ⟨log₃, h₃, h⟩ := bind_eq_ok.1 h
    cases h
    refine ⟨h₂, ?_⟩
    intro hlog
    subst hlog
    unfold error at h₃
    split at h₃
    · cases h₃
    · have hlen := congrArg List.length (Except.ok.inj h₃)
      rw [List.length_append] at hlen
      exact absurd hlen (Nat.succ_ne_self _)
  · rename_i hfull
    cases h
    refine ⟨h₂, ?_⟩
    intro _ hm
    apply hfull
    refine ⟨?_, hm⟩
    intro hnil
    rw [hnil] at hm
    cases hm

theorem assignId_of (h₁ : apis.foldlM reserveId [] = .ok idRes)
    (h₂ : assignLoop (.start idRes) apis = .ok (s, out)) (hfull : [] ∉ s.idRes.tail) :
    assignId threshold log apis = .ok (out, log) := by
  unfold assignId
  rw [h₁]
  change (assignLoop (.start idRes) apis >>= _) = _
  rw [h₂]
  exact if_neg fun h => hfull h.2

theorem requests_blank (apis : List StaticApi) :
    ∀ r ∈ (autos apis).map (·.request), r.1 ≠ default := by
  intro r hr
  obtain ⟨p, -, rfl⟩ := List.mem_map.1 hr
  exact p.text_ne

theorem requests_positive (apis : List StaticApi) :
    ∀ r ∈ (autos apis).map (·.request), r.2 ≠ some 0 := by
  intro r hr h
  obtain ⟨p, -, rfl⟩ := List.mem_map.1 hr
  exact absurd (reserved_eq_some.1 h).2 (Nat.lt_irrefl 0)

theorem requests_fst (apis : List StaticApi) :
    ((autos apis).map (·.request)).map (·.1) = (autos apis).map (·.text) := by
  rw [List.map_map]
  rfl

theorem requests_snd (apis : List StaticApi) :
    ((autos apis).map (·.request)).map (·.2) = (autos apis).map (·.reserved) := by
  rw [List.map_map]
  rfl

/-- After the first loop the table holds what is reserved, and nothing is reserved twice. -/
theorem reserved_ready (h : apis.foldlM reserveId [] = .ok idRes) :
    Numbering.Ready [] ((autos apis).map (·.request)) ⟨1, idRes⟩ ∧
      (autos apis).Pairwise fun p q => ∀ i, p.reserved = some i → q.reserved ≠ some i := by
  obtain ⟨hres, -⟩ := reserveAll_ok h
  obtain ⟨hholds, hnd⟩ := Numbering.Holds.nil.reserveAll hres List.Pairwise.nil
    (requests_blank apis)
  rw [List.nil_append] at hholds hnd
  refine ⟨hholds.ready (requests_positive apis), ?_⟩
  rw [requests_snd, List.pairwise_map] at hnd
  exact hnd

theorem known_start (h : Numbering.Ready [] rs ⟨1, idRes⟩) : Known [] (.start idRes) := by
  refine ⟨fun _ => rfl, ?_, h.zero, Nat.one_pos⟩
  intro api n
  exact iff_of_false List.not_mem_nil List.not_mem_nil

theorem values_of_reserved {ps : List Parameter} {ids : List Nat}
    (h : ps.map (·.reserved) = ids.map some) :
    ps.map (·.value) = ids.map fun i : Nat => some (i : Int) := by
  induction ps generalizing ids with
  | nil =>
    cases ids with
    | nil => rfl
    | cons i ids => cases h
  | cons p ps ih =>
    cases ids with
    | nil => cases h
    | cons i ids =>
      obtain ⟨hp, h⟩ := List.cons.inj h
      rw [List.map_cons, List.map_cons, (reserved_eq_some.1 hp).1, ih h]

theorem reserved_of_values {ps : List Parameter} {ids : List Nat}
    (h : ps.map (·.value) = ids.map fun i : Nat => some (i : Int)) (hpos : ∀ i ∈ ids, 0 < i) :
    ps.map (·.reserved) = ids.map some := by
  induction ps generalizing ids with
  | nil =>
    cases ids with
    | nil => rfl
    | cons i ids => cases h
  | cons p ps ih =>
    cases ids with
    | nil => cases h
    | cons i ids =>
      obtain ⟨hp, h⟩ := List.cons.inj h
      rw [List.map_cons, List.map_cons, reserved_eq_some.2 ⟨hp, hpos i List.mem_cons_self⟩,
        ih h fun i hi => hpos i (List.mem_cons_of_mem _ hi)]

/-- Neither a name nor a reserved number is used twice where `assign_id` ends. -/
theorem assignId_pairwise (h : assignId threshold log apis = .ok (out, log')) :
    apis.Pairwise fun a b => ¬Clash a b := by
  obtain ⟨idRes, s, h₁, h₂, -⟩ := assignId_ok h
  obtain ⟨hready, hres⟩ := reserved_ready h₁
  obtain ⟨ks, hk, hadm⟩ := (known_start hready).assignLoop_ok h₂
  have hnames := names_pairwise hk hadm
  refine (hnames.and (autos_pairwise.1 hres)).imp ?_
  rintro a b ⟨hname, hnum⟩ ⟨q, hq, hc | ⟨p, i, hp, hi, hi'⟩⟩
  · exact hname q hq hc
  · exact hnum p hp q hq i hi hi'

theorem assignId_assigned (h : assignId threshold log apis = .ok (out, log)) :
    Assigned apis out := by
  obtain ⟨idRes, s, h₁, h₂, hfull⟩ := assignId_ok h
  obtain ⟨hready, hres⟩ := reserved_ready h₁
  obtain ⟨ks, hk, hadm⟩ := (known_start hready).assignLoop_ok h₂
  obtain ⟨hsame, -, hgive⟩ := assignLoop_number h₂ Nat.one_pos
  obtain ⟨ids, hids, hnum, hperm⟩ := hready.number (requests_blank apis)
    (by
      rw [requests_fst]
      exact autos_nodup (names_pairwise hk hadm))
    (by
      rw [requests_snd, List.pairwise_map]
      exact hres)
  change Numbering.giveAll ⟨1, idRes⟩ _ = _ at hgive
  rw [hgive] at hids hperm
  rw [requests_snd] at hnum
  rw [List.length_map] at hperm
  refine ⟨hsame, ⟨ids, values_of_reserved hids, hperm (hfull rfl), hnum⟩, ?_⟩
  rintro pre a suf n rfl ha
  exact slave_admissible hk hadm ha

/-- A clash of two APIs is reported. -/
theorem assignId_clash (hs : [a, b].Sublist apis) (hc : Clash a b) :
    assignId threshold log apis ≠ .ok (out, log') := by
  intro h
  exact List.pairwise_iff_forall_sublist.1 (assignId_pairwise h) hs hc

theorem Revalued.map_kind (h : List.Forall₂ Revalued apis out) :
    out.map StaticApi.kind = apis.map StaticApi.kind := by
  induction h with
  | nil => rfl
  | cons hab _ ih => rw [List.map_cons, List.map_cons, hab.kind_eq, ih]

/-- The APIs are the same where the identifiers have the same numbers. -/
theorem Revalued.eq_of_reserved {apis out : List StaticApi} (h : List.Forall₂ Revalued apis out)
    (hr : (autos out).map (·.reserved) = (autos apis).map (·.reserved))
    (hsome : ∀ p ∈ autos apis, p.reserved ≠ none) : out = apis := by
  induction h with
  | nil => rfl
  | @cons a b apis out hab _ ih =>
    unfold autos at hr hsome ih
    cases ha : a.auto with
    | none =>
      have hb : b.auto = none := by
        by_contra hne
        exact hab.auto_ne.2 hne ha
      have hba : b = a := by
        rcases hab with hba | ⟨hne, -⟩
        · exact hba
        · exact absurd ha hne
      rw [List.filterMap_cons_none ha] at hr hsome
      rw [List.filterMap_cons_none hb] at hr
      rw [hba, ih hr hsome]
    | some p =>
      obtain ⟨q, hb⟩ := Option.ne_none_iff_exists'.1 (hab.auto_ne.1 (ha ▸ Option.some_ne_none p))
      rw [List.filterMap_cons_some ha] at hr hsome
      rw [List.filterMap_cons_some hb] at hr
      obtain ⟨hq, hr⟩ := List.cons.inj hr
      obtain ⟨i, hi⟩ := Option.ne_none_iff_exists'.1 (hsome p List.mem_cons_self)
      have hp := setValue_self ha (reserved_eq_some.1 hi).1
      have hq := hab.setValue hb (reserved_eq_some.1 (hq.trans hi)).1
      rw [← hq, hp, ih hr fun p hp => hsome p (List.mem_cons_of_mem _ hp)]

/-- APIs that have their numbers already keep them. -/
theorem assignId_again (h : assignId threshold log apis = .ok (out, log)) :
    assignId threshold log out = .ok (out, log) := by
  obtain ⟨idRes, s, h₁, h₂, -⟩ := assignId_ok h
  obtain ⟨hready, -⟩ := reserved_ready h₁
  obtain ⟨ks, hk, hadm⟩ := (known_start hready).assignLoop_ok h₂
  obtain ⟨hsame, htext, -⟩ := assignLoop_number h₂ Nat.one_pos
  obtain ⟨-, ⟨ids, hvals, hperm, -⟩, -⟩ := assignId_assigned h
  have hkind := (Revalued.map_kind hsame).trans hk
  have hres : (autos out).map (·.reserved) = ids.map some := reserved_of_values hvals fun i hi =>
    (List.mem_range'_1.1 (hperm.mem_iff.1 hi)).1
  have hsome : ∀ p ∈ autos out, ∃ i ∈ ids, p.reserved = some i := by
    intro p hp
    obtain ⟨i, hi, he⟩ := List.mem_map.1 (hres ▸ List.mem_map_of_mem hp)
    exact ⟨i, hi, he.symm⟩
  have hmem (i : Nat) : some i ∈ ((autos out).map (·.request)).map (·.2) ↔
      0 < i ∧ i ≤ (autos apis).length := by
    rw [requests_snd, hres, List.mem_map_of_injective (Option.some_injective Nat),
      hperm.mem_iff, List.mem_range'_1]
    omega
  -- the first loop puts every identifier into the table
  have hdist : (((autos out).map (·.request)).map (·.2)).Pairwise
      fun a b => ∀ i, a = some i → b ≠ some i := by
    rw [requests_snd, hres, List.pairwise_map]
    refine (hperm.nodup_iff.2 List.nodup_range').imp ?_
    intro i j hij k hi hj
    cases hi
    cases hj
    exact hij rfl
  obtain ⟨t, ht⟩ := Numbering.reserveAll_isSome Numbering.Holds.nil hdist (requests_blank out)
  have hfirst : out.foldlM reserveId [] = .ok t := reserveAll_of
    (by
      intro a ha hnone
      have hm : a.kind ∈ ks.map some := hkind ▸ List.mem_map_of_mem ha
      rw [hnone] at hm
      obtain ⟨k, -, hk⟩ := List.mem_map.1 hm
      cases hk)
    (by
      intro p hp
      obtain ⟨i, -, hi⟩ := hsome p hp
      rw [(reserved_eq_some.1 hi).1]
      exact Option.some_ne_none _)
    ht
  have hready' := (reserved_ready hfirst).1
  have hfull : [] ∉ t.tail := hready'.holds.full
    (Numbering.length_reserveAll ht (Nat.zero_le _) fun i hi => ((hmem i).1 hi).2)
    (requests_blank out) fun i hi hle => (hmem i).2 ⟨hi, hle⟩
  -- the second loop finds it there
  obtain ⟨⟨s', out'⟩, h₃⟩ := (known_start hready').assignLoop_isOk hkind hadm
  obtain ⟨hsame', -, hgive⟩ := assignLoop_number h₃ Nat.one_pos
  have hfound : Numbering.giveAll ⟨1, t⟩ ((autos out).map (·.request)) =
      (⟨1, t⟩, ((autos out).map (·.request)).map (·.2)) := by
    apply Numbering.giveAll_found
    intro r hr
    obtain ⟨p, hp, rfl⟩ := List.mem_map.1 hr
    obtain ⟨i, -, hi⟩ := hsome p hp
    refine hready'.holds.find_ne_none (x := p.text) (i := i) ?_ p.text_ne
    rw [← hi]
    exact hr
  change Numbering.giveAll ⟨1, t⟩ _ = _ at hgive
  rw [hfound, requests_snd] at hgive
  obtain ⟨hs, hreserved⟩ := Prod.mk.inj hgive
  obtain ⟨-, ht'⟩ := Numbering.Cursor.mk.inj hs
  have hout : out' = out := Revalued.eq_of_reserved hsame' hreserved.symm fun p hp => by
    obtain ⟨i, -, hi⟩ := hsome p hp
    rw [hi]
    exact Option.some_ne_none i
  subst hout
  exact assignId_of hfirst h₃ (ht' ▸ hfull)

end Assign

end AspKernel.Itronx
