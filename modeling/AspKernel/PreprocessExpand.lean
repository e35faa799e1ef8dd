import AspKernel.PreprocessRun

/-! The expansion of a project: each character keeps its place in the order, its file and its line. -/

namespace AspKernel.Itronx.Preprocess
set_option autoImplicit true
open Toppers (Text Row after after_pos after_file number number_append)
open Toppers.RemoveComment (Codeset Lead Quote Scan removeComment removeLoop)

/-- The next character goes to the line `l`. -/
def Ready (st : State) (l : TextLine) : Prop := 0 < l.line ∧ ∃ rs row, st.out.At l rs row

theorem Ready.chars_push (h : Ready st l) : (st.push c).out.chars = st.out.chars ++ [(c, l)] := by
  obtain ⟨hl, rs, row, ha⟩ := h
  exact ha.chars_pushBack hl

theorem Ready.push (h : Ready st l) : Ready (st.push c) (after l c) := by
  obtain ⟨hl, rs, row, ha⟩ := h
  refine ⟨after_pos hl, ?_⟩
  by_cases hc : c = '\n'
  · subst hc
    exact ⟨_, _, ha.newline hl⟩
  · rw [after, if_neg hc]
    exact ⟨_, _, ha.pushBack hl hc⟩

theorem Ready.getLast_push (h : Ready st l) : ∃ r, (st.push c).out.rows.getLast? = some r ∧ r.line = l := by
  obtain ⟨hl, rs, row, ha⟩ := h
  exact ⟨_, ha.getLast_pushBack hl, rfl⟩

theorem Ready.pushAll (h : Ready st l) (hs : '\n' ∉ s) :
    Ready (st.pushAll s) l ∧ (st.pushAll s).out.chars = st.out.chars ++ s.map fun c => (c, l) := by
  induction s generalizing st with
  | nil =>
    refine ⟨h, ?_⟩
    rw [List.map_nil, List.append_nil]
    rfl
  | cons c s ih =>
    obtain ⟨hc, hs⟩ := not_or.1 (mt List.mem_cons.2 hs)
    have hp := h.push (c := c)
    rw [after, if_neg (Ne.symm hc)] at hp
    obtain ⟨hr, hch⟩ := ih hp hs
    refine ⟨hr, ?_⟩
    rw [h.chars_push, List.append_assoc] at hch
    exact hch

theorem State.copy_out (st : State) (l : TextLine) (t : Str) (c : Char) :
    (st.copy l t c).out = (st.push c).out ∧ (st.copy l t c).onces = st.onces := by
  unfold copy
  split
  · exact ⟨rfl, rfl⟩
  · exact ⟨rfl, rfl⟩

theorem State.pushAll_onces (st : State) (s : Str) : (st.pushAll s).onces = st.onces := by
  induction s generalizing st with
  | nil => rfl
  | cons c s ih => exact ih (st.push c)

section
variable {w : World} (p : Project w)

/-- What is added to the text ends in a row of a file of this rank at most. -/
def Within (k : Nat) (t t' : Text) : Prop :=
  t'.rows = t.rows ∨ ∃ r, t'.rows.getLast? = some r ∧ p.rank r.line.file ≤ k

/-- No file of `o` is known as one with the directive, nor comes a second time if it has it. -/
def Fresh (o : List Str) (onces : Option (List Str)) : Prop :=
  onces ≠ none → ∀ x ∈ o, x ∉ onces.getD [] ∧ (p.Once x → o.count x ≤ 1)

/-- The files that get known as having the directive are among `o`. -/
def Grows (o : List Str) (onces onces' : Option (List Str)) : Prop :=
  (onces = none → onces' = none) ∧ ∀ x ∈ onces'.getD [], x ∈ onces.getD [] ∨ x ∈ o ∧ p.Once x

variable {p}

theorem Within.trans (h : Within p k t t') (h' : Within p k t' t'') : Within p k t t'' := by
  rcases h' with h' | h'
  · rw [Within, h']
    exact h
  · exact .inr h'

theorem Within.mono (h : Within p k t t') (hk : k ≤ k') : Within p k' t t' := by
  rcases h with h | ⟨r, hr, hle⟩
  · exact .inl h
  · exact .inr ⟨r, hr, Nat.le_trans hle hk⟩

theorem Grows.refl (o : List Str) (onces : Option (List Str)) : Grows p o onces onces :=
  ⟨fun h => h, fun _ hx => .inl hx⟩

theorem Grows.trans (h : Grows p o onces onces') (h' : Grows p o onces' onces'') : Grows p o onces onces'' := by
  refine ⟨fun hn => h'.1 (h.1 hn), fun x hx => ?_⟩
  rcases h'.2 x hx with hx | hx
  · exact h.2 x hx
  · exact .inr hx

theorem Grows.mono (h : Grows p a onces onces') (hs : ∀ x ∈ a, x ∈ b) : Grows p b onces onces' :=
  ⟨h.1, fun x hx => (h.2 x hx).imp id fun hx => ⟨hs x hx.1, hx.2⟩⟩

theorem Grows.insert (hf : f ∈ o) (ho : p.Once f) : Grows p o onces (onces.map (List.insert f)) := by
  cases onces with
  | none => exact .refl o none
  | some xs =>
    refine ⟨nofun, fun x hx => ?_⟩
    rcases List.mem_insert_iff.1 hx with rfl | hx
    · exact .inr ⟨hf, ho⟩
    · exact .inl hx

theorem Fresh.insert (h : Fresh p o onces) (hf : f ∉ o) : Fresh p o (onces.map (List.insert f)) := by
  cases onces with
  | none => exact h
  | some xs =>
    intro _ x hx
    obtain ⟨hk, hc⟩ := h nofun x hx
    refine ⟨fun hm => ?_, hc⟩
    rcases List.mem_insert_iff.1 hm with rfl | hm
    · exact hf hx
    · exact hk hm

theorem Fresh.left (h : Fresh p (a ++ b) onces) : Fresh p a onces := by
  intro hn x hx
  obtain ⟨hk, hc⟩ := h hn x (List.mem_append_left b hx)
  refine ⟨hk, fun ho => ?_⟩
  have hle := hc ho
  rw [List.count_append] at hle
  omega

theorem Fresh.right (h : Fresh p (a ++ b) onces) (hg : Grows p a onces onces') : Fresh p b onces' := by
  intro hn x hx
  have hn' : onces ≠ none := fun he => hn (hg.1 he)
  obtain ⟨hk, hc⟩ := h hn' x (List.mem_append_right a hx)
  have hb := List.one_le_count_iff.2 hx
  constructor
  · intro hm
    rcases hg.2 x hm with hm | ⟨ha, ho⟩
    · exact hk hm
    · have hle := hc ho
      have ha := List.one_le_count_iff.2 ha
      rw [List.count_append] at hle
      omega
  · intro ho
    have hle := hc ho
    rw [List.count_append] at hle
    omega

theorem rank_included (hf : p.mem f) (hx : x ∈ includedAt p n f) : p.rank x ≤ p.rank f := by
  induction n generalizing f with
  | zero => cases hx
  | succ n ih =>
    rcases List.mem_cons.1 hx with rfl | hx
    · exact Nat.le_refl _
    · obtain ⟨k, hk, hx⟩ := List.mem_flatMap.1 hx
      cases k with
      | statement s headername =>
        obtain ⟨-, hm, hlt⟩ := p.closed hf hk
        exact Nat.le_trans (ih hm hx) (Nat.le_of_lt hlt)
      | char c => cases hx
      | literal q b => cases hx
      | once s => cases hx

/-- A file is not among those it includes. -/
theorem not_included (hf : p.mem f) (hs : ∀ k ∈ ts, k ∈ p.toks f) : f ∉ includedToks w (includedAt p n) ts := by
  intro hx
  obtain ⟨k, hk, hx⟩ := List.mem_flatMap.1 hx
  cases k with
  | statement s headername =>
    obtain ⟨-, hm, hlt⟩ := p.closed hf (hs _ hk)
    exact absurd (rank_included hm hx) (Nat.not_le.2 hlt)
  | char c => cases hx
  | literal q b => cases hx
  | once s => cases hx

theorem text_ne (h : WellFormed cs row (k :: ts)) : text (k :: ts) ≠ [] := by
  obtain ⟨hk, -⟩ := h
  intro he
  have hk' : k.text = [] := (List.append_eq_nil_iff.1 he).1
  cases k with
  | char c => cases hk'
  | literal q b => cases hk'
  | statement s headername =>
    obtain ⟨s', hs⟩ := hk.statement_ne
    exact absurd (hs.symm.trans hk') (List.cons_ne_nil _ _)
  | once s =>
    have hlen := (onceDirective_some hk.2.1).2
    have hs : s = [] := hk'
    rw [hs] at hlen
    exact absurd hlen (Nat.lt_irrefl _)

variable (p) in
/-- The expansion of a file, with its depth. -/
def Expands (n : Nat) (g : Str) : Prop :=
  ∀ st, (∀ r ∈ st.out.rows.getLast?, r.line.file ≠ g) → Fresh p (includedAt p n g) st.onces →
    ∃ st', Runs w g st st' ∧ st'.out.chars = st.out.chars ++ expandAt p [' '] n g ∧
      Within p (p.rank g) st.out st'.out ∧ Grows p (includedAt p n g) st.onces st'.onces

variable (p) in
/-- The expansion of what a file has from some token on. -/
def Continues (n : Nat) (f : Str) (l : TextLine) (row : Str) (ts : List Tok) (st st' : State) : Prop :=
  Scans w l row (text ts) st st' ∧
    st'.out.chars = st.out.chars ++ expandToks w [' '] (expandAt p [' '] n) l ts ∧
    Within p (p.rank f) st.out st'.out ∧ Grows p (f :: includedToks w (includedAt p n) ts) st.onces st'.onces

theorem Ready.within (h : Ready st l) (c : Char) : Within p (p.rank l.file) st.out (st.push c).out := by
  obtain ⟨r, hr, he⟩ := h.getLast_push (c := c)
  exact .inr ⟨r, hr, by rw [he]⟩

theorem Ready.within_pushAll (h : Ready st l) (hs : '\n' ∉ s) :
    Within p (p.rank l.file) st.out (st.pushAll s).out := by
  induction s generalizing st with
  | nil => exact .inl rfl
  | cons c s ih =>
    obtain ⟨hc, hs⟩ := not_or.1 (mt List.mem_cons.2 hs)
    have hp := h.push (c := c)
    rw [after, if_neg (Ne.symm hc)] at hp
    exact (h.within c).trans (ih hp hs)

theorem Continues.char (hk : (Tok.char c).Wf w.codeset row (text ts)) (hr : Ready st l)
    (h : Continues p n l.file (after l c) ((Tok.char c).rowAfter row) ts (st.copy l (c :: text ts) c) st') :
    Continues p n l.file l row (.char c :: ts) st st' := by
  obtain ⟨hs, hc, hw, hg⟩ := h
  obtain ⟨ho, hon⟩ := st.copy_out l (c :: text ts) c
  rw [ho] at hc hw
  rw [hon] at hg
  refine ⟨hs.char hk, ?_, (hr.within c).trans hw, hg⟩
  rw [hc, hr.chars_push, List.append_assoc]
  rfl

theorem literal_text (hk : (Tok.literal q b).Wf cs row t) : '\n' ∉ (Tok.literal q b).text := by
  obtain ⟨hq, hn, -⟩ := hk
  have hq' : '\n' ≠ q := by
    rcases hq with rfl | rfl
    · decide
    · decide
  simp [Tok.text, hq', hn]

theorem Continues.literal (hk : (Tok.literal q b).Wf w.codeset row (text ts)) (hr : Ready st l)
    (h : Continues p n l.file l (row ++ (Tok.literal q b).text) ts (st.pushAll (Tok.literal q b).text) st') :
    Continues p n l.file l row (.literal q b :: ts) st st' := by
  obtain ⟨hs, hc, hw, hg⟩ := h
  have hn := literal_text hk
  rw [st.pushAll_onces] at hg
  refine ⟨hs.literal hk, ?_, (hr.within_pushAll hn).trans hw, hg⟩
  rw [hc, (hr.pushAll hn).2, List.append_assoc]
  rfl

theorem Continues.once (hf : .once s ∈ p.toks l.file) (hk : (Tok.once s).Wf w.codeset row (text ts))
    (hr : Ready st l) (h : Continues p n l.file (after l '\n') [] ts ((st.once l.file).push '\n') st') :
    Continues p n l.file l row (.once s :: ts) st st' := by
  obtain ⟨hs, hc, hw, hg⟩ := h
  have hr' : Ready (st.once l.file) l := hr
  refine ⟨hs.once hk, ?_, (hr'.within '\n').trans hw, ?_⟩
  · rw [hc, hr'.chars_push, List.append_assoc]
    rfl
  · exact (Grows.insert List.mem_cons_self ⟨s, hf⟩).trans hg

/-- Behind the expansion of another file the next character goes to the line of the statement. -/
theorem Ready.resume {st₁ : State} (h : Ready st l) (hw : Within p k (st.push ' ').out st₁.out) (hk : k < p.rank l.file) :
    Ready (st₁.setLine l) l := by
  obtain ⟨hl, rs, row, ha⟩ := h
  refine ⟨hl, ?_⟩
  rcases hw with hw | ⟨r, hr, hle⟩
  · have hrows : st₁.out.rows = rs ++ [⟨l, row ++ [' ']⟩] := by
      rw [hw, State.push, ha.pushBack_eq hl]
    exact ⟨rs, row ++ [' '], .within hrows (by simp) (by simp) rfl⟩
  · refine ⟨_, _, .fresh (fun r' hr' he => ?_) rfl⟩
    have hr'' : st₁.out.rows.getLast? = some r' := hr'
    rw [hr] at hr''
    cases hr''
    rw [he] at hle
    exact absurd hle (Nat.not_le.2 hk)

theorem mem_includedAt (hn : n ≠ 0) : f ∈ includedAt p n f := by
  obtain ⟨n, rfl⟩ := Nat.exists_eq_succ_of_ne_zero hn
  exact List.mem_cons_self

/-- A statement in front of the tokens `ts`, once the file it names is expanded. -/
theorem Continues.statement (hk : (Tok.statement s headername).Wf w.codeset row (text ts))
    (hname : searchIncludeFile w headername ≠ []) (honce : searchIncludeFile w headername ∉ st.onces.getD [])
    (hr : Ready st l) (hlt : p.rank (searchIncludeFile w headername) < p.rank l.file)
    (hrun : Runs w (searchIncludeFile w headername) ((st.depend (searchIncludeFile w headername)).push ' ') st₁)
    (hc₁ : st₁.out.chars = (st.push ' ').out.chars ++ expandAt p [' '] n (searchIncludeFile w headername))
    (hw₁ : Within p (p.rank (searchIncludeFile w headername)) (st.push ' ').out st₁.out)
    (hg₁ : Grows p (includedAt p n (searchIncludeFile w headername)) st.onces st₁.onces)
    (hwf : WellFormed w.codeset (row ++ s) ts)
    (h : ts ≠ [] → ∃ st', Continues p n l.file l (row ++ s) ts (st₁.setLine l) st') :
    ∃ st', Continues p n l.file l row (.statement s headername :: ts) st st' := by
  have hg : Grows p (l.file :: includedToks w (includedAt p n) (.statement s headername :: ts)) st.onces st₁.onces :=
    hg₁.mono fun x hx => List.mem_cons_of_mem _ (List.mem_append_left _ hx)
  have hw := (hr.within (p := p) ' ').trans (hw₁.mono (Nat.le_of_lt hlt))
  cases ts with
  | nil =>
    refine ⟨st₁, Scans.statement_end hk hname honce hrun, ?_, hw, hg⟩
    rw [hc₁, hr.chars_push, List.append_assoc]
    simp [expandToks]
  | cons k ts =>
    obtain ⟨st', hs', hc', hw', hg'⟩ := h (List.cons_ne_nil _ _)
    cases ht : text (k :: ts) with
    | nil => exact absurd ht (text_ne hwf)
    | cons d t =>
      rw [ht] at hk hs'
      have hscan := Scans.statement hk hname honce hrun hs'
      rw [← ht] at hscan
      refine ⟨st', hscan, ?_, hw.trans hw', hg.trans (hg'.mono fun x hx => ?_)⟩
      · have hset : (st₁.setLine l).out.chars = st₁.out.chars := rfl
        rw [hc', hset, hc₁, hr.chars_push]
        simp [expandToks, Tok.lineAfter]
      · rcases List.mem_cons.1 hx with rfl | hx
        · exact List.mem_cons_self
        · exact List.mem_cons_of_mem _ (List.mem_append_right _ hx)

theorem Ready.copy (h : Ready st l) (t : Str) (c : Char) : Ready (st.copy l t c) (after l c) := by
  obtain ⟨h1, h2⟩ := h.push (c := c)
  rw [← (st.copy_out l t c).1] at h2
  exact ⟨h1, h2⟩

/-- The tokens of a file are expanded, if the files it includes are. -/
theorem toks_continue (hf : p.mem f) (hg : ∀ g, p.mem g → p.rank g < p.rank f → Expands p n g)
    (hn : p.rank f ≤ n) (hs : ∀ k ∈ ts, k ∈ p.toks f) (hw : WellFormed w.codeset row ts) (hl : l.file = f)
    (hr : Ready st l) (hfr : Fresh p (includedToks w (includedAt p n) ts) st.onces) :
    ∃ st', Continues p n f l row ts st st' := by
  induction ts generalizing st l row with
  | nil =>
    refine ⟨st, Scans.done, ?_, .inl rfl, .refl _ _⟩
    rw [expandToks, List.append_nil]
  | cons k ts ih =>
    obtain ⟨hk, hts⟩ := List.forall_mem_cons.1 hs
    obtain ⟨hkw, hw⟩ := hw
    subst hl
    cases k with
    | char c =>
      rw [← (st.copy_out l (c :: text ts) c).2] at hfr
      obtain ⟨st', h⟩ := ih hts hw after_file (hr.copy (c :: text ts) c) hfr
      exact ⟨st', h.char hkw hr⟩
    | literal q b =>
      rw [← st.pushAll_onces (Tok.literal q b).text] at hfr
      obtain ⟨st', h⟩ := ih hts hw rfl (hr.pushAll (literal_text hkw)).1 hfr
      exact ⟨st', h.literal hkw hr⟩
    | statement s headername =>
      obtain ⟨hname, hm, hlt⟩ := p.closed hf hk
      have hfr : Fresh p (includedAt p n (searchIncludeFile w headername) ++
        includedToks w (includedAt p n) ts) st.onces := hfr
      have hr' : Ready (st.depend (searchIncludeFile w headername)) l := hr
      obtain ⟨r, hlast, he⟩ := hr'.getLast_push (c := ' ')
      have hother : ∀ r ∈ ((st.depend (searchIncludeFile w headername)).push ' ').out.rows.getLast?,
          r.line.file ≠ searchIncludeFile w headername := by
        intro r' hr' hfile
        have hr' := hlast.symm.trans hr'
        cases hr'
        rw [← hfile, he] at hlt
        exact absurd hlt (Nat.lt_irrefl _)
      have honce : searchIncludeFile w headername ∉ st.onces.getD [] := by
        cases ho : st.onces with
        | none => exact nofun
        | some xs =>
          have hmem : searchIncludeFile w headername ∈ includedAt p n (searchIncludeFile w headername) :=
            mem_includedAt (by omega)
          rw [ho] at hfr
          exact (hfr.left nofun _ hmem).1
      obtain ⟨st₁, hrun, hc₁, hw₁, hg₁⟩ := hg _ hm hlt _ hother hfr.left
      exact Continues.statement hkw hname honce hr hlt hrun hc₁ hw₁ hg₁ hw fun _ =>
        ih hts hw rfl (hr.resume hw₁ hlt) (hfr.right hg₁)
    | once s =>
      have hfr : Fresh p (includedToks w (includedAt p n) ts) st.onces := hfr
      have hfr' : Fresh p (includedToks w (includedAt p n) ts) ((st.once l.file).push '\n').onces :=
        hfr.insert (not_included hf hts)
      have ho : Ready (st.once l.file) l := hr
      have hr' : Ready ((st.once l.file).push '\n') (after l '\n') := ho.push
      obtain ⟨st', h⟩ := ih hts hw after_file hr' hfr'
      exact ⟨st', h.once hk hkw hr⟩

/-- Every file of a project is expanded. -/
theorem expands (n : Nat) (hf : p.mem f) (hn : p.rank f < n) : Expands p n f := by
  induction n generalizing f with
  | zero => exact absurd hn (Nat.not_lt_zero _)
  | succ n ih =>
    intro st hother hfr
    rcases p.reads hf with ⟨hread, htoks⟩ | ⟨t, hread, ht, htoks, hremove⟩
    · refine ⟨st, ⟨1, fun m hm => ?_⟩, ?_, .inl rfl, .refl _ _⟩
      · obtain ⟨m, rfl⟩ := Nat.exists_eq_add_of_le' hm
        rw [preprocess, hread]
      · rw [expandAt, htoks, expandToks, List.append_nil]
    · have hr : Ready (st.setLine ⟨f, 1⟩) ⟨f, 1⟩ := ⟨Int.one_pos, _, _, .fresh hother rfl⟩
      have hfr' : Fresh p (f :: includedToks w (includedAt p n) (p.toks f)) st.onces := hfr
      obtain ⟨st', hs, hc, hw, hg⟩ := toks_continue hf (fun g hm hlt => ih hm (by omega)) (by omega)
        (fun k hk => hk) (p.wellFormed hf) rfl hr (Fresh.right (a := [f]) hfr' (.refl _ _))
      obtain ⟨N, hN⟩ := hs
      refine ⟨st', ⟨N + 1, fun m hm => ?_⟩, hc, hw, hg⟩
      obtain ⟨m, rfl⟩ := Nat.exists_eq_add_of_le' (Nat.le_of_add_left_le hm)
      have hne : text (p.toks f) ≠ [] := by
        have hwf := p.wellFormed hf
        cases hk : p.toks f with
        | nil => exact absurd hk htoks
        | cons k ts =>
          rw [hk] at hwf
          exact text_ne hwf
      cases t with
      | nil => exact absurd rfl ht
      | cons c t =>
        rw [preprocess, hread]
        simp only [hremove, expandInclude_ofStr f hne]
        exact hN m (by omega) m (by omega)

end

/-- What a step does to the result: a character is copied, or it is part of a comment and no end of line. -/
def Copies (s : Scan) (c next : Char) (r : Scan × Bool) : Prop :=
  if r.2 = true then next ≠ '\x00' ∧
    (r.1.result = s.result ++ [c, next] ∨ r.1.result = s.result ∧ c ≠ '\n' ∧ next ≠ '\n')
  else r.1.result = s.result ++ [c] ∨ r.1.result = s.result ∧ c ≠ '\n'

theorem quoted_copies (hq : Quote q) (s : Scan) (c next : Char) : Copies s c next (s.quoted cs q c next) := by
  unfold Scan.quoted
  split
  · next h =>
    refine ⟨?_, .inl ?_⟩
    · rw [h.2.2]
      exact hq.ne_nul
    · simp [Scan.put]
  · split
    · exact .inl rfl
    · exact .inl rfl

theorem step_copies (cs : Codeset) (s : Scan) (c next : Char) : Copies s c next (s.step cs c next) := by
  have hne {a : Char} (ha : a ≠ '\n') (hc : c = a) : c ≠ '\n' := by
    rw [hc]
    exact ha
  unfold Scan.step
  split
  · split
    · exact .inl rfl
    · next h => exact .inr ⟨rfl, h⟩
  · split
    · next h =>
      obtain ⟨rfl, rfl⟩ := h
      exact ⟨by decide, .inr ⟨rfl, by decide, by decide⟩⟩
    · split
      · exact .inl rfl
      · next h => exact .inr ⟨rfl, h⟩
  · exact quoted_copies (.inl rfl) s c next
  · exact quoted_copies (.inr rfl) s c next
  · split
    · next hc =>
      split
      · next hn =>
        subst hc hn
        exact ⟨by decide, .inr ⟨rfl, by decide, by decide⟩⟩
      · split
        · next hn =>
          subst hc hn
          exact ⟨by decide, .inr ⟨rfl, by decide, by decide⟩⟩
        · exact .inl rfl
    · split
      · exact .inl rfl
      · split
        · exact .inl rfl
        · exact .inl rfl

/-- What is written has the lines it has in the text. -/
def InPlace (l : TextLine) (r u : Str) : Prop :=
  (number l r).Sublist (number l u) ∧ r.foldl after l = u.foldl after l

theorem InPlace.copy (h : InPlace l r u) (v : Str) : InPlace l (r ++ v) (u ++ v) := by
  obtain ⟨hs, he⟩ := h
  refine ⟨?_, ?_⟩
  · rw [number_append, number_append, he]
    exact hs.append (.refl _)
  · rw [List.foldl_append, List.foldl_append, he]

theorem InPlace.skip (h : InPlace l r u) (hc : c ≠ '\n') : InPlace l r (u ++ [c]) := by
  obtain ⟨hs, he⟩ := h
  refine ⟨?_, ?_⟩
  · rw [number_append]
    exact hs.trans (List.sublist_append_left _ _)
  · rw [List.foldl_append, ← he, List.foldl_cons, after, if_neg hc]
    rfl

theorem removeLoop_inPlace (cs : Codeset) (t : Str) (s : Scan) (h : InPlace l s.result u) :
    InPlace l (removeLoop cs s t).result (u ++ t) := by
  match t with
  | [] =>
    rw [removeLoop, List.append_nil]
    exact h
  | c :: t =>
    have hs := step_copies cs s c (t.headD '\x00')
    rw [removeLoop]
    cases hr : s.step cs c (t.headD '\x00') with
    | mk s' skip =>
      rw [hr] at hs
      cases skip with
      | false =>
        have hc : InPlace l s'.result (u ++ [c]) := by
          rcases hs with hs | ⟨hs, hc⟩
          · exact hs ▸ h.copy [c]
          · exact hs ▸ h.skip hc
        rw [List.append_cons]
        exact removeLoop_inPlace cs t { s' with prev := c } hc
      | true =>
        obtain ⟨hn, hs⟩ := hs
        cases t with
        | nil => exact absurd rfl hn
        | cons d t =>
          have hc : InPlace l s'.result (u ++ [c, d]) := by
            rcases hs with hs | ⟨hs, hc, hd⟩
            · exact hs ▸ h.copy [c, d]
            · have h2 := (h.skip hc).skip hd
              rw [List.append_assoc] at h2
              exact hs ▸ h2
          have hu : u ++ c :: d :: t = u ++ [c, d] ++ t := by simp
          rw [hu]
          exact removeLoop_inPlace cs t { s' with prev := d } hc
termination_by t.length

/-- The characters left without the comments are on the lines they are on in the file. -/
theorem removeComment_sublist (cs : Codeset) (l : TextLine) (t : Str) :
    (number l (removeComment cs t).1).Sublist (number l t) :=
  (removeLoop_inPlace (u := []) cs t .start ⟨.refl _, rfl⟩).1

theorem expands_start {w : World} (p : Project w) (f : Str) (dependencies onces : Option (List Str)) (hf : p.mem f)
    (ho : onces = none ∨ onces = some [] ∧ ∀ g, p.Once g → (included p f).count g ≤ 1) :
    ∃ st, Runs w f (.start dependencies onces) st ∧ st.out.chars = expansion p [' '] f := by
  have hother : ∀ r ∈ (State.start dependencies onces).out.rows.getLast?, r.line.file ≠ f := nofun
  have hfr : Fresh p (includedAt p (p.rank f + 1) f) onces := by
    intro hn x hx
    obtain ⟨rfl, hc⟩ := ho.resolve_left hn
    exact ⟨nofun, hc x⟩
  obtain ⟨st, hrun, hc, -, -⟩ := expands (p.rank f + 1) hf (Nat.lt_succ_self _) _ hother hfr
  exact ⟨st, hrun, hc⟩

theorem Runs.unique (h : Runs w f st st₁) (h' : Runs w f st st₂) : st₁ = st₂ := by
  obtain ⟨N, hN⟩ := h
  obtain ⟨N', hN'⟩ := h'
  exact Except.ok.inj ((hN (N + N') (by omega)).symm.trans (hN' (N + N') (by omega)))

/-- The text of an expanded file has the characters of the file and of those it includes, each with the place it comes
from; there is a blank in front of an included file, and an end of line for a directive. It takes that no file with the
directive is included twice, where this is to be observed. -/
theorem preprocess_expansion {w : World} (p : Project w) (f : Str) (dependencies onces : Option (List Str))
    (hf : p.mem f) (ho : onces = none ∨ onces = some [] ∧ ∀ g, p.Once g → (included p f).count g ≤ 1) :
    (∃ st, Runs w f (.start dependencies onces) st ∧ st.out.chars = expansion p [' '] f) ∧
      ∀ g t, p.mem g → w.files g = some t → (number ⟨g, 1⟩ (text (p.toks g))).Sublist (number ⟨g, 1⟩ t) := by
  refine ⟨expands_start p f dependencies onces hf ho, fun g t hg ht => ?_⟩
  rcases p.reads hg with ⟨hr, htoks⟩ | ⟨t', hr, -, -, hremove⟩
  · rw [htoks]
    exact List.nil_sublist _
  · rw [hr] at ht
    cases ht
    have hs := removeComment_sublist w.codeset ⟨g, 1⟩ t
    rw [hremove] at hs
    exact hs

/-- The file `a` with the row `"s" INCLUDE("b");`, and `b` with the rows `#pragma once` and `x`. -/
def sampleWorld : World where
  codeset := .ascii
  files f :=
    if f = ['a'] then some "\"s\" INCLUDE(\"b\");\n".toList
    else if f = ['b'] then some "#pragma once\nx\n".toList
    else none
  includePath := []
  join path file := path ++ '/' :: file
  maxErrors := 1

def sampleToks (f : Str) : List Tok :=
  if f = ['a'] then [.literal '"' ['s'], .char ' ', .statement "INCLUDE(\"b\");".toList ['b'], .char '\n']
  else if f = ['b'] then [.once "#pragma once\n".toList, .char 'x', .char '\n']
  else []

theorem sample_wellFormed (h : f = ['a'] ∨ f = ['b']) : WellFormed .ascii [] (sampleToks f) := by
  have hq {c : Char} (h : c ≠ '\'' ∧ c ≠ '"') : ¬Quote c := not_or.2 h
  rcases h with rfl | rfl
  · have hs : ∀ b₁ c b₂, ['s'] = b₁ ++ c :: b₂ → Quote c → escaped .ascii ('"' :: b₁) (b₁.length + 1) := by
      intro b₁ c b₂ he hc
      cases b₁ with
      | nil =>
        cases he
        exact absurd hc (hq (by decide))
      | cons d b₁ => exact absurd (List.cons.inj he).2 (by simp)
    refine ⟨⟨.inr rfl, by decide, hs, by decide⟩, ⟨hq (by decide), rfl, nofun⟩, ⟨by decide, rfl, nofun⟩,
      ⟨hq (by decide), rfl, nofun⟩, trivial⟩
  · exact ⟨⟨rfl, rfl, by decide, .inl rfl⟩, ⟨hq (by decide), rfl, fun _ => rfl⟩,
      ⟨hq (by decide), rfl, nofun⟩, trivial⟩

theorem sample_closed (h : f = ['a'] ∨ f = ['b']) (hs : .statement s headername ∈ sampleToks f) :
    f = ['a'] ∧ headername = ['b'] := by
  rcases h with rfl | rfl
  · simp [sampleToks] at hs
    exact ⟨rfl, hs.2⟩
  · simp [sampleToks] at hs

def sample : Project sampleWorld where
  mem f := f = ['a'] ∨ f = ['b']
  toks := sampleToks
  rank f := if f = ['a'] then 1 else 0
  reads := by
    rintro f (rfl | rfl)
    · exact .inr ⟨_, rfl, by decide, nofun, by decide⟩
    · exact .inr ⟨_, rfl, by decide, nofun, by decide⟩
  wellFormed := sample_wellFormed
  closed := by
    intro f s headername hf hs
    obtain ⟨rfl, rfl⟩ := sample_closed hf hs
    exact ⟨by decide, .inr rfl, by decide⟩

theorem sample_once (g : Str) : (included sample ['a']).count g ≤ 1 :=
  List.nodup_iff_count_le_one.1 (by decide) g

theorem preprocess_expansion_sample :
    (∃ st, Runs sampleWorld ['a'] (.start none (some [])) st ∧ st.out.chars = expansion sample [' '] ['a']) ∧
      ∀ g t, sample.mem g → sampleWorld.files g = some t →
        (number ⟨g, 1⟩ (text (sample.toks g))).Sublist (number ⟨g, 1⟩ t) :=
  preprocess_expansion sample ['a'] none (some []) (.inl rfl) (.inr ⟨rfl, fun g _ => sample_once g⟩)

/-- The blank in front of an included file is in no file. -/
theorem not_preprocess_expansion : ¬∀ (w : World) (p : Project w) (f : Str), p.mem f →
    (∀ g, p.Once g → (included p f).count g ≤ 1) →
      ∃ st, Runs w f (.start none (some [])) st ∧ st.out.chars = expansion p [] f := by
  intro h
  have ho (g : Str) (_ : sample.Once g) := sample_once g
  obtain ⟨st, hr, hc⟩ := h sampleWorld sample ['a'] (.inl rfl) ho
  obtain ⟨st', hr', hc'⟩ := expands_start sample ['a'] none (some []) (.inl rfl) (.inr ⟨rfl, ho⟩)
  have he : expansion sample [] ['a'] = expansion sample [' '] ['a'] := by rw [← hc, ← hc', hr.unique hr']
  exact absurd he (by decide)

end AspKernel.Itronx.Preprocess
