import AspKernel.StaticApi
import Mathlib.Data.List.Count
import Mathlib.Data.List.Nodup
import Mathlib.Data.List.Perm.Basic
import Mathlib.Data.List.TakeWhile

/-! The numbers of the protection domains. -/

namespace AspKernel.Itronx
set_option autoImplicit true

/-- A fatal error, or an element that the table of identifiers does not have. -/
inductive DomainStop
  | fatal (d : Diag)
  | outside
  deriving DecidableEq, Repr

def domainMax : Nat := 32

/-- The first pass: the numbers of the id-input file. -/
def firstPass (idMap : List IdEntry) : List Str → List Str → Except DomainStop (List Str)
  | domids, [] => .ok domids
  | domids, name :: names =>
    match idMap.find? (·.name = name) with
    | none => firstPass idMap domids names
    | some hit =>
      let domid := hit.value
      if domid > 32 then
        .error (.fatal ⟨none, "domain id `".toList ++ hit.name ++ "\' is too large".toList⟩)
      else if domid - 1 < 0 then .error .outside
      else firstPass idMap (domids.set (domid - 1).toNat hit.name) names

/-- The first element that is empty. -/
def fillFirst (name : Str) : List Str → List Str
  | [] => []
  | d :: domids => if d = [] then name :: domids else d :: fillFirst name domids

/-- The second pass: the names that are not in the file. -/
def secondPass (idMap : List IdEntry) : List Str → List Str → List Str
  | domids, [] => domids
  | domids, name :: names =>
    match idMap.find? (·.name = name) with
    | none => secondPass idMap (fillFirst name domids) names
    | some _ => secondPass idMap domids names

/-- `load_id_input_file`, with the name and the text of the file if there is one. -/
def loadIdInputFile : Option (Str × Str) → Except Diag (List IdEntry)
  | none => .ok []
  | some (file, text) => readIds file [] (text.splitOn '\n')

/-- The part of `do_load_cfg` that numbers the domains. -/
def assignDomids (idInput : Option (Str × Str)) (domidTable : List Str) :
    Except DomainStop (List (Str × Int)) :=
  if domidTable.length > domainMax then .error (.fatal ⟨none, "there are too many domain ids".toList⟩)
  else
    match loadIdInputFile idInput with
    | .error d => .error (.fatal d)
    | .ok idMap => do
      let domids ← firstPass idMap (List.replicate domainMax []) domidTable
      let domids := secondPass idMap domids domidTable
      return domids.zipIdx.map fun d => (d.1, (d.2 : Int) + 1)

/-- Every name is once in the table, with a number of its own, and that of the file if it is there. -/
structure Numbered (idMap : List IdEntry) (names : List Str) (table : List (Str × Int)) : Prop where
  once : ∀ name ∈ names, (table.map (·.1)).count name = 1
  number : ∀ name ∈ names, ∃ id, (name, id) ∈ table ∧ 1 ≤ id ∧ id ≤ 32 ∧
    ∀ e ∈ idMap, e.name = name → id = e.value
  distinct : ∀ name ∈ names, ∀ name' ∈ names, ∀ id, (name, id) ∈ table → (name', id) ∈ table → name = name'

/-- A fatal error, or the domains as they have to be. -/
def DomidsRight (idMap : List IdEntry) (names : List Str) : Except DomainStop (List (Str × Int)) → Prop
  | .error (.fatal _) => True
  | .error .outside => False
  | .ok table => Numbered idMap names table

/-- The numbers that the file has for domains. -/
def fileNumbers (idMap : List IdEntry) (names : List Str) : List Int :=
  names.filterMap fun name => (idMap.find? (·.name = name)).map (·.value)

/-- The elements that are not empty. -/
def filled (domids : List Str) : List Str := domids.filter (· ≠ [])

section
variable {domids : List Str} {name : Str} {idMap : List IdEntry} {names : List Str}

theorem filled_nil_cons (domids : List Str) : filled ([] :: domids) = filled domids :=
  List.filter_cons_of_neg (by simp)

theorem filled_cons (h : name ≠ []) (domids : List Str) : filled (name :: domids) = name :: filled domids :=
  List.filter_cons_of_pos (by simpa using h)

theorem filled_set {i : Nat} (h : domids[i]? = some []) (hne : name ≠ []) :
    (filled (domids.set i name)).Perm (name :: filled domids) := by
  induction domids generalizing i with
  | nil => cases h
  | cons d domids ih =>
    cases i with
    | zero =>
      cases Option.some.inj h
      rw [List.set_cons_zero, filled_cons hne, filled_nil_cons]
    | succ i =>
      have hp := ih h
      rw [List.set_cons_succ]
      by_cases hd : d = []
      · subst hd
        rw [filled_nil_cons, filled_nil_cons]
        exact hp
      · rw [filled_cons hd, filled_cons hd]
        exact (hp.cons d).trans (.swap name d _)

theorem filled_fillFirst (h : [] ∈ domids) (hne : name ≠ []) :
    (filled (fillFirst name domids)).Perm (name :: filled domids) := by
  induction domids with
  | nil => cases h
  | cons d domids ih =>
    unfold fillFirst
    by_cases hd : d = []
    · subst hd
      rw [if_pos rfl, filled_cons hne, filled_nil_cons]
    · have hp := ih ((List.mem_cons.1 h).resolve_left (Ne.symm hd))
      rw [if_neg hd, filled_cons hd, filled_cons hd]
      exact (hp.cons d).trans (.swap name d _)

theorem length_fillFirst : (fillFirst name domids).length = domids.length := by
  induction domids with
  | nil => rfl
  | cons d domids ih =>
    unfold fillFirst
    split
    · rfl
    · exact congrArg (· + 1) ih

theorem fillFirst_keep {i : Nat} {x : Str} (h : domids[i]? = some x) (hx : x ≠ []) : (fillFirst name domids)[i]? = some x := by
  induction domids generalizing i with
  | nil => cases h
  | cons d domids ih =>
    unfold fillFirst
    cases i with
    | zero =>
      cases Option.some.inj h
      rw [if_neg hx]
      rfl
    | succ i =>
      split
      · exact h
      · exact ih h

/-- There is an empty element as long as fewer names than elements are there. -/
theorem empty_mem (h : (filled domids).length < domids.length) : [] ∈ domids := by
  by_contra hnot
  have hall : filled domids = domids := List.filter_eq_self.2 fun d hd => by
    have : d ≠ [] := fun he => hnot (he ▸ hd)
    simpa using this
  rw [hall] at h
  exact lt_irrefl _ h

/-- A name that the file has. -/
def named (idMap : List IdEntry) (name : Str) : Bool := (idMap.find? (·.name = name)).isSome

theorem named_eq_false (h : idMap.find? (·.name = name) = none) : named idMap name = false := by
  unfold named
  rw [h]
  rfl

theorem named_eq_true (h : idMap.find? (·.name = name) = some e) : named idMap name = true := by
  unfold named
  rw [h]
  rfl

theorem fileNumbers_none (h : idMap.find? (·.name = name) = none) :
    fileNumbers idMap (name :: names) = fileNumbers idMap names := by
  unfold fileNumbers
  rw [List.filterMap_cons_none (by rw [h]; rfl)]

theorem fileNumbers_some (h : idMap.find? (·.name = name) = some e) :
    fileNumbers idMap (name :: names) = e.value :: fileNumbers idMap names := by
  unfold fileNumbers
  rw [List.filterMap_cons_some (by rw [h]; rfl)]

theorem find_name (h : idMap.find? (·.name = name) = some e) : e.name = name := by
  simpa using List.find?_some h

theorem mem_fileNumbers (hname : name ∈ names) (h : idMap.find? (·.name = name) = some e) :
    e.value ∈ fileNumbers idMap names :=
  List.mem_filterMap.2 ⟨name, hname, by rw [h]; rfl⟩

/-- The first pass puts the names of the file into elements of their own. -/
theorem firstPass_ok (hrange : ∀ v ∈ fileNumbers idMap names, 1 ≤ v ∧ v ≤ 32)
    (hnd : (fileNumbers idMap names).Nodup)
    (hfree : ∀ v ∈ fileNumbers idMap names, domids[(v - 1).toNat]? = some []) (hne : [] ∉ names) :
    ∃ d, firstPass idMap domids names = .ok d ∧ d.length = domids.length ∧
      (filled d).Perm (filled domids ++ names.filter (named idMap)) ∧
      (∀ (i : Nat) (x : Str), domids[i]? = some x → x ≠ [] → d[i]? = some x) ∧
      ∀ name ∈ names, ∀ e, idMap.find? (·.name = name) = some e → d[(e.value - 1).toNat]? = some name := by
  induction names generalizing domids with
  | nil => exact ⟨domids, rfl, rfl, by simp, fun i x h hx => h, fun name h => by cases h⟩
  | cons name names ih =>
    obtain ⟨hname, hne⟩ := not_or.1 (mt List.mem_cons.2 hne)
    unfold firstPass
    cases hf : idMap.find? (·.name = name) with
    | none =>
      rw [fileNumbers_none hf] at hrange hnd hfree
      obtain ⟨d, hd, hlen, hperm, hkeep, hfile⟩ := ih hrange hnd hfree hne
      refine ⟨d, hd, hlen, ?_, hkeep, ?_⟩
      · rw [List.filter_cons_of_neg (by simp [named_eq_false hf])]
        exact hperm
      · intro n hn e he
        rcases List.mem_cons.1 hn with rfl | hn
        · cases hf.symm.trans he
        · exact hfile n hn e he
    | some hit =>
      rw [fileNumbers_some hf] at hrange hnd hfree
      obtain ⟨hv, hrange⟩ := List.forall_mem_cons.1 hrange
      obtain ⟨hnot, hnd⟩ := List.nodup_cons.1 hnd
      obtain ⟨hslot, hfree⟩ := List.forall_mem_cons.1 hfree
      have hhit := find_name hf
      have hother : ∀ v ∈ fileNumbers idMap names,
          (domids.set (hit.value - 1).toNat hit.name)[(v - 1).toNat]? = some [] := fun v hmem => by
        have hne : v ≠ hit.value := fun he => hnot (he ▸ hmem)
        have hvr := hrange v hmem
        rw [List.getElem?_set_ne (by omega)]
        exact hfree v hmem
      obtain ⟨d, hd, hlen, hperm, hkeep, hfile⟩ := ih hrange hnd hother hne
      dsimp only
      rw [if_neg (by omega), if_neg (by omega)]
      rw [hhit] at hperm hkeep
      refine ⟨d, hd, hlen.trans (List.length_set ..), ?_, ?_, ?_⟩
      · rw [List.filter_cons_of_pos (named_eq_true hf)]
        exact hperm.trans (((filled_set hslot (Ne.symm hname)).append_right _).trans List.perm_middle.symm)
      · intro i x hi hx
        apply hkeep i x _ hx
        rw [List.getElem?_set_ne, hi]
        rintro rfl
        exact hx (Option.some.inj (hi.symm.trans hslot))
      · intro n hn e he
        rcases List.mem_cons.1 hn with rfl | hn
        · cases hf.symm.trans he
          apply hkeep _ _ _ (Ne.symm hname)
          rw [List.getElem?_set_self (List.getElem?_eq_some_iff.1 hslot).1]
        · exact hfile n hn e he

/-- The second pass puts the other names into elements that are free. -/
theorem secondPass_ok (hlen : (filled domids).length + (names.filter (!named idMap ·)).length ≤ domids.length)
    (hne : [] ∉ names) :
    (secondPass idMap domids names).length = domids.length ∧
      (filled (secondPass idMap domids names)).Perm (filled domids ++ names.filter (!named idMap ·)) ∧
      ∀ (i : Nat) (x : Str), domids[i]? = some x → x ≠ [] → (secondPass idMap domids names)[i]? = some x := by
  induction names generalizing domids with
  | nil => exact ⟨rfl, by simp [secondPass], fun i x h hx => h⟩
  | cons name names ih =>
    obtain ⟨hname, hne⟩ := not_or.1 (mt List.mem_cons.2 hne)
    unfold secondPass
    cases hf : idMap.find? (·.name = name) with
    | none =>
      have hfilter : (name :: names).filter (!named idMap ·) = name :: names.filter (!named idMap ·) :=
        List.filter_cons_of_pos (by simp [named_eq_false hf])
      rw [hfilter] at hlen ⊢
      rw [List.length_cons] at hlen
      have hempty : [] ∈ domids := empty_mem (by omega)
      have hperm := filled_fillFirst hempty (Ne.symm hname)
      have hroom : (filled (fillFirst name domids)).length + (names.filter (!named idMap ·)).length ≤
          (fillFirst name domids).length := by
        rw [hperm.length_eq, length_fillFirst, List.length_cons]
        omega
      obtain ⟨hlen', hperm', hkeep⟩ := ih hroom hne
      exact ⟨hlen'.trans length_fillFirst, hperm'.trans ((hperm.append_right _).trans List.perm_middle.symm),
        fun i x hi hx => hkeep i x (fillFirst_keep hi hx) hx⟩
    | some hit =>
      have hfilter : (name :: names).filter (!named idMap ·) = names.filter (!named idMap ·) :=
        List.filter_cons_of_neg (by simp [named_eq_true hf])
      rw [hfilter] at hlen ⊢
      exact ih hlen hne

/-- The names in a table with their numbers. -/
theorem mem_table {d : List Str} {id : Int} :
    (name, id) ∈ (d.zipIdx.map fun x => (x.1, (x.2 : Int) + 1)) ↔ ∃ i : Nat, d[i]? = some name ∧ id = (i : Int) + 1 := by
  rw [List.mem_map]
  constructor
  · rintro ⟨⟨n, i⟩, hmem, he⟩
    cases he
    exact ⟨i, List.mk_mem_zipIdx_iff_getElem?.1 hmem, rfl⟩
  · rintro ⟨i, hi, rfl⟩
    exact ⟨(name, i), List.mk_mem_zipIdx_iff_getElem?.2 hi, rfl⟩

theorem table_names (d : List Str) : (d.zipIdx.map fun x => (x.1, (x.2 : Int) + 1)).map (·.1) = d := by
  rw [List.map_map]
  exact List.zipIdx_map_fst 0 d

/-- The numbers of the file are those of the domains if they have room in the table and are different. -/
theorem passes_numbered (hnames : names.Nodup) (hne : [] ∉ names) (hlen : names.length ≤ 32)
    (hmap : (idMap.map (·.name)).Nodup) (hrange : ∀ v ∈ fileNumbers idMap names, 1 ≤ v ∧ v ≤ 32)
    (hnd : (fileNumbers idMap names).Nodup) :
    ∃ d, firstPass idMap (List.replicate domainMax []) names = .ok d ∧
      Numbered idMap names ((secondPass idMap d names).zipIdx.map fun x => (x.1, (x.2 : Int) + 1)) := by
  have hempty : filled (List.replicate domainMax []) = [] := by decide
  have hfree : ∀ v ∈ fileNumbers idMap names, (List.replicate domainMax [])[(v - 1).toNat]? = some ([] : Str) := by
    intro v hv
    have hvr := hrange v hv
    rw [List.getElem?_replicate, if_pos]
    unfold domainMax
    omega
  obtain ⟨d, hd, hdlen, hperm, -, hfile⟩ := firstPass_ok hrange hnd hfree hne
  rw [hempty, List.nil_append] at hperm
  have hboth := List.filter_append_perm (named idMap) names
  have hcount := hboth.length_eq
  rw [List.length_append] at hcount
  have hroom : (filled d).length + (names.filter (!named idMap ·)).length ≤ d.length := by
    rw [hperm.length_eq, hcount, hdlen, List.length_replicate]
    exact hlen
  obtain ⟨hlen', hperm', hkeep⟩ := secondPass_ok hroom hne
  have hall : (filled (secondPass idMap d names)).Perm names :=
    hperm'.trans ((hperm.append_right _).trans hboth)
  refine ⟨d, hd, ?_, ?_, ?_⟩
  · intro name hname
    have hname0 : name ≠ [] := fun h => hne (h ▸ hname)
    rw [table_names, ← List.count_filter (p := (· ≠ [])) (by simpa using hname0)]
    exact (hall.count_eq name).trans (List.count_eq_one_of_mem hnames hname)
  · intro name hname
    have hname0 : name ≠ [] := fun h => hne (h ▸ hname)
    cases hf : idMap.find? (·.name = name) with
    | none =>
      have hmem : name ∈ secondPass idMap d names := List.mem_of_mem_filter (hall.mem_iff.2 hname)
      obtain ⟨i, hi⟩ := List.mem_iff_getElem?.1 hmem
      have hlt := (List.getElem?_eq_some_iff.1 hi).1
      rw [hlen', hdlen, List.length_replicate] at hlt
      unfold domainMax at hlt
      refine ⟨_, mem_table.2 ⟨i, hi, rfl⟩, by omega, by omega, ?_⟩
      intro e he hen
      have hnot := List.find?_eq_none.1 hf e he
      exact absurd (decide_eq_true hen) hnot
    | some e =>
      have hv := hrange e.value (mem_fileNumbers hname hf)
      have hi := hkeep _ _ (hfile name hname e hf) hname0
      refine ⟨_, mem_table.2 ⟨_, hi, rfl⟩, by omega, by omega, ?_⟩
      intro e' he' hen
      have hsame : e' = e :=
        List.inj_on_of_nodup_map hmap he' (List.mem_of_find?_eq_some hf) (hen.trans (find_name hf).symm)
      rw [hsame]
      omega
  · intro name hname name' hname' id h h'
    obtain ⟨i, hi, rfl⟩ := mem_table.1 h
    obtain ⟨i', hi', he⟩ := mem_table.1 h'
    have : i = i' := by omega
    subst this
    exact Option.some.inj (hi.symm.trans hi')

/-- The numbers before the first that is too large decide whether an element outside of the table is written. -/
theorem firstPass_outside (h : ∃ v ∈ (fileNumbers idMap names).takeWhile (· ≤ 32), v < 1) :
    firstPass idMap domids names = .error .outside := by
  induction names generalizing domids with
  | nil =>
    obtain ⟨v, hv, -⟩ := h
    cases hv
  | cons name names ih =>
    unfold firstPass
    cases hf : idMap.find? (·.name = name) with
    | none =>
      rw [fileNumbers_none hf] at h
      exact ih h
    | some hit =>
      rw [fileNumbers_some hf] at h
      obtain ⟨v, hv, hlt⟩ := h
      dsimp only
      by_cases hbig : hit.value ≤ 32
      · rw [List.takeWhile_cons_of_pos (by simpa using hbig)] at hv
        rw [if_neg (by omega)]
        split
        · rfl
        · rcases List.mem_cons.1 hv with rfl | hv
          · omega
          · exact ih ⟨v, hv, hlt⟩
      · rw [List.takeWhile_cons_of_neg (by simpa using hbig)] at hv
        cases hv

theorem firstPass_total (h : ∀ v ∈ fileNumbers idMap names, 1 ≤ v ∧ v ≤ 32) :
    ∃ d, firstPass idMap domids names = .ok d := by
  induction names generalizing domids with
  | nil => exact ⟨domids, rfl⟩
  | cons name names ih =>
    unfold firstPass
    cases hf : idMap.find? (·.name = name) with
    | none =>
      rw [fileNumbers_none hf] at h
      exact ih h
    | some hit =>
      rw [fileNumbers_some hf] at h
      obtain ⟨hv, h⟩ := List.forall_mem_cons.1 h
      dsimp only
      rw [if_neg (by omega), if_neg (by omega)]
      exact ih h

theorem firstPass_fatal (h : ∀ v ∈ (fileNumbers idMap names).takeWhile (· ≤ 32), 1 ≤ v)
    (hbig : ∃ v ∈ fileNumbers idMap names, 32 < v) :
    ∃ d, firstPass idMap domids names = .error (.fatal d) := by
  induction names generalizing domids with
  | nil =>
    obtain ⟨v, hv, -⟩ := hbig
    cases hv
  | cons name names ih =>
    unfold firstPass
    cases hf : idMap.find? (·.name = name) with
    | none =>
      rw [fileNumbers_none hf] at h hbig
      exact ih h hbig
    | some hit =>
      rw [fileNumbers_some hf] at h hbig
      dsimp only
      by_cases hfit : hit.value ≤ 32
      · rw [List.takeWhile_cons_of_pos (by simpa using hfit)] at h
        obtain ⟨hpos, h⟩ := List.forall_mem_cons.1 h
        obtain ⟨v, hv, hlt⟩ := hbig
        rw [if_neg (by omega), if_neg (by omega)]
        rcases List.mem_cons.1 hv with rfl | hv
        · omega
        · exact ih h ⟨v, hv, hlt⟩
      · rw [if_pos (by omega)]
        exact ⟨_, rfl⟩

/-- Domains that have the numbers of the file, and different ones, have different ones in the file. -/
theorem Numbered.nodup {table : List (Str × Int)} (h : Numbered idMap names table) (hnames : names.Nodup) :
    (fileNumbers idMap names).Nodup := by
  have hnumber {name e} (hname : name ∈ names) (hf : idMap.find? (·.name = name) = some e) :
      (name, e.value) ∈ table := by
    obtain ⟨id, hmem, -, -, hfile⟩ := h.number name hname
    rwa [hfile e (List.mem_of_find?_eq_some hf) (find_name hf)] at hmem
  apply List.pairwise_filterMap.2
  apply List.Pairwise.imp_of_mem _ hnames
  intro name name' hname hname' hne v hv v' hv' heq
  obtain ⟨e, hf, rfl⟩ := Option.map_eq_some_iff.1 hv
  obtain ⟨e', hf', rfl⟩ := Option.map_eq_some_iff.1 hv'
  exact hne (h.distinct name hname name' hname' _ (hnumber hname hf) (heq ▸ hnumber hname' hf'))

end

theorem readIds_nodup (h : readIds file idMap lines = .ok idMap') (hmap : (idMap.map (·.name)).Nodup) :
    (idMap'.map (·.name)).Nodup := by
  induction lines generalizing idMap with
  | nil =>
    cases h
    exact hmap
  | cons linebuf lines ih =>
    unfold readIds at h
    split at h
    · cases h
      exact hmap
    · split at h
      · cases h
      · rename_i name rest hname
        split at h
        · cases h
        · rename_i value hvalue
          split at h
          · cases h
          · rename_i hany
            apply ih h
            rw [List.map_append]
            apply List.nodup_append'.2
            refine ⟨hmap, List.nodup_singleton _, ?_⟩
            intro n hn hn'
            cases List.mem_singleton.1 hn'
            obtain ⟨e, he, hen⟩ := List.mem_map.1 hn
            exact hany (List.any_eq_true.2 ⟨e, he, decide_eq_true hen⟩)

theorem loadIdInputFile_nodup (h : loadIdInputFile idInput = .ok idMap) : (idMap.map (·.name)).Nodup := by
  cases idInput with
  | none =>
    cases h
    exact List.nodup_nil
  | some f => exact readIds_nodup h List.nodup_nil

/-- The domains are numbered as they have to be if none has a number below 1 in the file before one that is too large,
and if, where none is too large, the numbers are different. -/
theorem assignDomids_exact (names : List Str) (hnames : names.Nodup) (hne : [] ∉ names) (hlen : names.length ≤ 32)
    (h : loadIdInputFile idInput = .ok idMap) :
    DomidsRight idMap names (assignDomids idInput names) ↔
      (∀ v ∈ (fileNumbers idMap names).takeWhile (· ≤ 32), 1 ≤ v) ∧
        ((∀ v ∈ fileNumbers idMap names, v ≤ 32) → (fileNumbers idMap names).Nodup) := by
  have hmany : ¬names.length > domainMax := Nat.not_lt.2 hlen
  unfold assignDomids
  rw [if_neg hmany, h]
  dsimp only
  by_cases hlow : ∀ v ∈ (fileNumbers idMap names).takeWhile (· ≤ 32), 1 ≤ v
  · by_cases hbig : ∀ v ∈ fileNumbers idMap names, v ≤ 32
    · have htake : (fileNumbers idMap names).takeWhile (· ≤ 32) = fileNumbers idMap names :=
        List.takeWhile_eq_self_iff.2 fun v hv => by simpa using hbig v hv
      rw [htake] at hlow ⊢
      have hrange : ∀ v ∈ fileNumbers idMap names, 1 ≤ v ∧ v ≤ 32 := fun v hv => ⟨hlow v hv, hbig v hv⟩
      obtain ⟨d, hd⟩ : ∃ d, firstPass idMap (List.replicate domainMax []) names = .ok d := firstPass_total hrange
      rw [hd]
      constructor
      · intro hright
        exact ⟨hlow, fun _ => Numbered.nodup hright hnames⟩
      · rintro ⟨-, hnd⟩
        obtain ⟨d', hd', hnumbered⟩ :=
          passes_numbered hnames hne hlen (loadIdInputFile_nodup h) hrange (hnd hbig)
        cases hd.symm.trans hd'
        exact hnumbered
    · push Not at hbig
      obtain ⟨d, hd⟩ : ∃ d, firstPass idMap (List.replicate domainMax []) names = .error (.fatal d) :=
        firstPass_fatal hlow hbig
      rw [hd]
      apply iff_of_true trivial
      refine ⟨hlow, fun hall => ?_⟩
      obtain ⟨v, hv, hlt⟩ := hbig
      exact absurd (hall v hv) (Int.not_le.2 hlt)
  · push Not at hlow
    rw [firstPass_outside hlow]
    apply iff_of_false id
    rintro ⟨hall, -⟩
    obtain ⟨v, hv, hlt⟩ := hlow
    exact absurd (hall v hv) (Int.not_le.2 hlt)

/-- One domain has a number in the file, the other the first one that is free. -/
theorem assignDomids_exact_file : DomidsRight [⟨"B".toList, 1, false⟩] ["A".toList, "B".toList]
    (assignDomids (some ("ids".toList, "B 1\n".toList)) ["A".toList, "B".toList]) :=
  (assignDomids_exact ["A".toList, "B".toList] (by decide) (by decide) (by decide) rfl).2 (by decide)

/-- A domain vanishes where another one has the same number, and zero is outside of the table. -/
theorem not_assignDomids_exact :
    loadIdInputFile (some ("ids".toList, "A 1\nB 1\n".toList)) =
      .ok [⟨"A".toList, 1, false⟩, ⟨"B".toList, 1, false⟩] ∧
    ¬DomidsRight [⟨"A".toList, 1, false⟩, ⟨"B".toList, 1, false⟩] ["A".toList, "B".toList]
      (assignDomids (some ("ids".toList, "A 1\nB 1\n".toList)) ["A".toList, "B".toList]) ∧
    assignDomids (some ("ids".toList, "A 0\n".toList)) ["A".toList] = .error .outside := by
  have htable : assignDomids (some ("ids".toList, "A 1\nB 1\n".toList)) ["A".toList, "B".toList] =
      .ok ((("B".toList) :: List.replicate 31 []).zipIdx.map fun x => (x.1, (x.2 : Int) + 1)) := by decide
  refine ⟨rfl, ?_, by decide⟩
  rw [htable]
  intro h
  have honce := h.once "A".toList (by decide)
  rw [table_names] at honce
  exact absurd honce (by decide)

end AspKernel.Itronx
