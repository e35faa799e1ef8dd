import Mathlib.Data.List.Basic
import Mathlib.Logic.Function.Basic

/-! The generated files, kept in memory and saved together at the end. -/

namespace AspKernel.Toppers.OutputFile
set_option autoImplicit true

abbrev Str := List Char

/-- The contents under each path. -/
abbrev FS := Str → Option Str

/-- `fuse` is the number of calls of the file system that are left before the one that fails; a fuse burns once. -/
structure World where
  fs : FS
  fuse : Option Nat
  savedFiles : List Str

abbrev Disk := ExceptT Unit (StateM World)

def Disk.on (x : Disk α) (w : World) : Except Unit α × World := (x.run).run w

/-- A call that fails throws before it has changed anything. -/
def call : Disk Unit := do
  match (← get).fuse with
  | some 0 =>
    modify fun w => { w with fuse := none }
    throw ()
  | some (n + 1) => modify fun w => { w with fuse := some n }
  | none => return

/-- `fs::exists` -/
def exist (p : Str) : Disk Bool := do
  call
  return ((← get).fs p).isSome

/-- `fs::rename`: what is under the new name is replaced. -/
def rename (p q : Str) : Disk Unit := do
  call
  match (← get).fs p with
  | none => throw ()
  | some c => modify fun w => { w with fs := Function.update (Function.update w.fs p none) q (some c) }

/-- `fs::remove`: that there is no such file is no error. -/
def remove (p : Str) : Disk Unit := do
  call
  modify fun w => { w with fs := Function.update w.fs p none }

def write (p c : Str) : Disk Unit := do
  call
  modify fun w => { w with fs := Function.update w.fs p (some c) }

def backup (p : Str) : Str := p ++ ".org".toList

/-- One file of the loop of `save`. -/
def saveFile (p c : Str) : Disk Unit := do
  let existed ← exist p
  tryCatch (do
      if existed then rename p (backup p)
      write p c
      modify fun w => { w with savedFiles := w.savedFiles ++ [p] }
      remove (backup p))
    fun e => do
      if existed then
        remove p
        rename (backup p) p
      throw e

def saveFiles : List (Str × Str) → Disk Unit
  | [] => return
  | (p, c) :: l => do
    if p ≠ [] then saveFile p c
    saveFiles l

/-- Puts back a file that is written. -/
def restore (p : Str) : Disk Unit := do
  remove p
  if ← exist (backup p) then rename (backup p) p

def restoreFiles : List Str → Disk Unit
  | [] => return
  | p :: l => do
    restore p
    restoreFiles l

/-- `context_map`: the pending contents by path, in the order of the paths. -/
structure ContextMap where
  entries : List (Str × Str)
  sorted : entries.Pairwise fun a b => a.1 < b.1

def save (m : ContextMap) : Disk Unit :=
  tryCatch (saveFiles m.entries) fun e => do
    restoreFiles (← get).savedFiles
    throw e

/-- `save` on a disk, before the call of the given number fails. -/
def run (m : ContextMap) (fs : FS) (k : Nat) : Except Unit Unit × World :=
  (save m).on ⟨fs, some k, []⟩

@[simp] theorem Disk.on_bind (x : Disk α) (f : α → Disk β) (w : World) :
    (x >>= f).on w = match x.on w with
      | (.ok a, w') => (f a).on w'
      | (.error e, w') => (.error e, w') := by
  simp only [Disk.on, ExceptT.run_bind, StateT.run_bind]
  cases x.run.run w with
  | mk r w' => cases r <;> rfl

@[simp] theorem Disk.on_tryCatch (x : Disk α) (f : Unit → Disk α) (w : World) :
    (tryCatch x f).on w = match x.on w with
      | (.ok a, w') => (.ok a, w')
      | (.error e, w') => (f e).on w' := by
  simp only [Disk.on, ExceptT.run_tryCatch, StateT.run_bind]
  cases x.run.run w with
  | mk r w' => cases r <;> rfl

@[simp] theorem Disk.on_pure (a : α) (w : World) : (pure a : Disk α).on w = (.ok a, w) :=
  rfl

@[simp] theorem Disk.on_throw (e : Unit) (w : World) : (throw e : Disk α).on w = (.error e, w) :=
  rfl

@[simp] theorem Disk.on_get (w : World) : (get : Disk World).on w = (.ok w, w) :=
  rfl

@[simp] theorem Disk.on_modify (f : World → World) (w : World) : (modify f : Disk Unit).on w = (.ok (), f w) :=
  rfl

@[simp] theorem call_zero (fs : FS) (s : List Str) : call.on ⟨fs, some 0, s⟩ = (.error (), ⟨fs, none, s⟩) :=
  rfl

@[simp] theorem call_succ (fs : FS) (n : Nat) (s : List Str) :
    call.on ⟨fs, some (n + 1), s⟩ = (.ok (), ⟨fs, some n, s⟩) :=
  rfl

@[simp] theorem call_none (fs : FS) (s : List Str) : call.on ⟨fs, none, s⟩ = (.ok (), ⟨fs, none, s⟩) :=
  rfl

theorem lt_backup (p : Str) : p < backup p := by
  induction p with
  | nil => exact List.nil_lt_cons _ _
  | cons a p ih => exact List.cons_lt_cons_self.2 ih

theorem ne_backup (p : Str) : p ≠ backup p := by
  intro h
  have hlt := lt_backup p
  rw [← h] at hlt
  exact List.lt_irrefl p hlt

theorem backup_inj (h : backup p = backup q) : p = q :=
  List.append_cancel_right h

/-- What becomes of the files when a file is saved without failure. -/
def written (fs : FS) (p c : Str) : FS :=
  Function.update (Function.update fs p (some c)) (backup p) none

/-- The number of calls that takes. -/
def calls (fs : FS) (p : Str) : Nat :=
  if (fs p).isSome then 4 else 3

theorem saveFile_done (p c : Str) (fs : FS) (n : Nat) (s : List Str) :
    (saveFile p c).on ⟨fs, some (calls fs p + n), s⟩ = (.ok (), ⟨written fs p c, some n, s ++ [p]⟩) := by
  have hp := ne_backup p
  cases h : fs p with
  | none =>
    have hc : calls fs p + n = n + 2 + 1 := by rw [calls, h]; simp; omega
    rw [hc]
    simp [saveFile, exist, remove, write, h, written]
  | some v =>
    have hc : calls fs p + n = n + 3 + 1 := by rw [calls, h]; simp; omega
    have hw : Function.update (Function.update (Function.update (Function.update fs p none) (backup p) (some v))
        p (some c)) (backup p) none = written fs p c := by
      funext q
      by_cases hq : q = backup p
      · rw [hq, written, Function.update_self, Function.update_self]
      · rw [written, Function.update_of_ne hq, Function.update_of_ne hq]
        by_cases hq' : q = p
        · rw [hq', Function.update_self, Function.update_self]
        · simp [hq, hq']
    rw [hc]
    simp [saveFile, exist, remove, rename, write, h, hw]

theorem saveFile_new (h : fs p = none) (n : Nat) (c : Str) (s : List Str) :
    (saveFile p c).on ⟨fs, some n, s⟩ = match n with
      | 0 => (.error (), ⟨fs, none, s⟩)
      | 1 => (.error (), ⟨fs, none, s⟩)
      | 2 => (.error (), ⟨Function.update fs p (some c), none, s ++ [p]⟩)
      | n + 3 => (.ok (), ⟨written fs p c, some n, s ++ [p]⟩) := by
  match n with
  | 0 => simp [saveFile, exist]
  | 1 => simp [saveFile, exist, write, h]
  | 2 => simp [saveFile, exist, remove, write, h]
  | n + 3 => simp [saveFile, exist, remove, write, h, written]

/-- A file that is there, when the removal of its backup fails: it is put back at once, but counts as saved. -/
theorem saveFile_old (h : fs p = some v) (c : Str) (s : List Str) :
    (saveFile p c).on ⟨fs, some 3, s⟩ = (.error (), ⟨Function.update fs (backup p) none, none, s ++ [p]⟩) := by
  have hp := ne_backup p
  have hw : Function.update (Function.update (Function.update (Function.update (Function.update (Function.update fs
      p none) (backup p) (some v)) p (some c)) p none) (backup p) none) p (some v) =
      Function.update fs (backup p) none := by
    funext q
    by_cases hq : q = p
    · rw [hq, Function.update_self, Function.update_of_ne hp, h]
    · by_cases hq' : q = backup p <;> simp [hq, hq', hp.symm]
  simpa [saveFile, exist, remove, rename, write, h, hp.symm] using hw

/-- What becomes of the files when a saved file is put back. -/
def restored (fs : FS) (p : Str) : FS := fun q =>
  if q = p then fs (backup p) else if q = backup p then none else fs q

theorem restore_none (p : Str) (fs : FS) (s : List Str) :
    (restore p).on ⟨fs, none, s⟩ = (.ok (), ⟨restored fs p, none, s⟩) := by
  have hp := ne_backup p
  cases h : fs (backup p) with
  | none =>
    have hr : Function.update fs p none = restored fs p := by
      funext q
      by_cases hq : q = p
      · simp [restored, hq, h]
      · by_cases hq' : q = backup p <;> simp [restored, hq, hq', h, hp.symm]
    simpa [restore, remove, exist, h, hp.symm] using hr
  | some b =>
    have hr : Function.update (Function.update (Function.update fs p none) (backup p) none) p (some b) =
        restored fs p := by
      funext q
      by_cases hq : q = p
      · simp [restored, hq, h]
      · by_cases hq' : q = backup p <;> simp [restored, hq, hq', hp.symm]
    simpa [restore, remove, exist, rename, h, hp.symm] using hr

theorem restoreFiles_none (l : List Str) (fs : FS) (s : List Str) :
    (restoreFiles l).on ⟨fs, none, s⟩ = (.ok (), ⟨l.foldl restored fs, none, s⟩) := by
  induction l generalizing fs with
  | nil => rfl
  | cons p l ih => simp [restoreFiles, restore_none, ih]

theorem restored_of_ne (hp : q ≠ p) (hb : q ≠ backup p) (fs : FS) : restored fs p q = fs q := by
  rw [restored, if_neg hp, if_neg hb]

theorem restored_none (hp : q ≠ p) (h : fs q = none) : restored fs p q = none := by
  by_cases hb : q = backup p
  · rw [restored, if_neg hp, if_pos hb]
  · rw [restored_of_ne hp hb, h]

theorem restored_self (fs : FS) (p : Str) : restored fs p p = fs (backup p) := by
  rw [restored, if_pos rfl]

theorem restores_of_ne {l : List Str} (hp : ∀ p ∈ l, q ≠ p) (hb : ∀ p ∈ l, q ≠ backup p) (fs : FS) :
    l.foldl restored fs q = fs q := by
  induction l generalizing fs with
  | nil => rfl
  | cons p l ih =>
    rw [List.forall_mem_cons] at hp hb
    rw [List.foldl_cons, ih hp.2 hb.2, restored_of_ne hp.1 hb.1]

theorem restores_none {l : List Str} (hp : ∀ p ∈ l, q ≠ p) (h : fs q = none) : l.foldl restored fs q = none := by
  induction l generalizing fs with
  | nil => exact h
  | cons p l ih =>
    rw [List.forall_mem_cons] at hp
    exact ih hp.2 (restored_none hp.1 h)

/-- The files when all of a list are saved without failure. -/
def after (fs : FS) (l : List (Str × Str)) : FS :=
  l.foldl (fun fs e => written fs e.1 e.2) fs

def names (l : List (Str × Str)) : List Str :=
  l.map Prod.fst

theorem written_of_ne (hp : q ≠ p) (hb : q ≠ backup p) (fs : FS) (c : Str) : written fs p c q = fs q := by
  simp [written, hp, hb]

theorem written_none (hp : q ≠ p) (h : fs q = none) (c : Str) : written fs p c q = none := by
  by_cases hb : q = backup p
  · simp [written, hb]
  · rw [written_of_ne hp hb, h]

theorem after_of_ne {l : List (Str × Str)} (hp : ∀ e ∈ l, q ≠ e.1) (hb : ∀ e ∈ l, q ≠ backup e.1) (fs : FS) : after fs l q = fs q := by
  induction l generalizing fs with
  | nil => rfl
  | cons e l ih =>
    rw [List.forall_mem_cons] at hp hb
    exact (ih hp.2 hb.2 _).trans (written_of_ne hp.1 hb.1 fs e.2)

theorem after_none {l : List (Str × Str)} (hp : ∀ e ∈ l, q ≠ e.1) (h : fs q = none) : after fs l q = none := by
  induction l generalizing fs with
  | nil => exact h
  | cons e l ih =>
    rw [List.forall_mem_cons] at hp
    exact ih hp.2 (written_none hp.1 h e.2)

theorem saveFiles_ok (hp : p ≠ []) (h : (saveFile p c).on w = (.ok (), w')) (l : List (Str × Str)) :
    (saveFiles ((p, c) :: l)).on w = (saveFiles l).on w' := by
  simp only [saveFiles, if_pos hp, Disk.on_bind, h]

theorem saveFiles_error (hp : p ≠ []) (h : (saveFile p c).on w = (.error (), w')) (l : List (Str × Str)) :
    (saveFiles ((p, c) :: l)).on w = (.error (), w') := by
  simp only [saveFiles, if_pos hp, Disk.on_bind, h]

/-- The files of a list are saved without failure if the fuse is long enough. -/
theorem saveFiles_append (hl : ∀ e ∈ l, e.1 ≠ []) (fs : FS) (s : List Str) : ∃ m, ∀ n l',
    (saveFiles (l ++ l')).on ⟨fs, some (m + n), s⟩ = (saveFiles l').on ⟨after fs l, some n, s ++ names l⟩ := by
  induction l generalizing fs s with
  | nil => exact ⟨0, fun n l' => by simp [after, names]⟩
  | cons e l ih =>
    obtain ⟨p, c⟩ := e
    rw [List.forall_mem_cons] at hl
    obtain ⟨m, hm⟩ := ih hl.2 (written fs p c) (s ++ [p])
    refine ⟨calls fs p + m, fun n l' => ?_⟩
    rw [Nat.add_assoc, List.cons_append, saveFiles_ok hl.1 (saveFile_done p c fs (m + n) s), hm, List.append_assoc]
    rfl

theorem saveFiles_pending (l : List (Str × Str)) : saveFiles l = saveFiles (l.filter fun e => e.1 ≠ []) := by
  induction l with
  | nil => rfl
  | cons e l ih =>
    by_cases h : e.1 = []
    · rw [List.filter_cons_of_neg (by simp [h]), ← ih]
      simp [saveFiles, h]
    · rw [List.filter_cons_of_pos (by simp [h])]
      simp [saveFiles, ih]

/-- The files that `save` writes. -/
def ContextMap.pending (m : ContextMap) : List (Str × Str) :=
  m.entries.filter fun e => e.1 ≠ []

theorem ContextMap.pending_ne (m : ContextMap) : ∀ e ∈ m.pending, e.1 ≠ [] := by
  intro e h
  simpa using (List.mem_filter.1 h).2

theorem ContextMap.pending_sorted (m : ContextMap) : m.pending.Pairwise fun a b => a.1 < b.1 :=
  m.sorted.filter _

theorem run_error (h : (saveFiles m.pending).on ⟨fs, some k, []⟩ = (.error (), ⟨fs', none, s⟩)) :
    run m fs k = (.error (), ⟨s.foldl restored fs', none, s⟩) := by
  rw [ContextMap.pending, ← saveFiles_pending] at h
  simp [run, save, h, restoreFiles_none]

theorem run_ok (h : (saveFiles m.pending).on ⟨fs, some k, []⟩ = (.ok (), w)) : run m fs k = (.ok (), w) := by
  rw [ContextMap.pending, ← saveFiles_pending] at h
  simp [run, save, h]

theorem after_append (fs : FS) (l l' : List (Str × Str)) : after fs (l ++ l') = after (after fs l) l' :=
  List.foldl_append

/-- A file is at its place among the sorted ones: it is no later one, and no backup of a later one. -/
theorem ne_of_sorted (h : (l ++ e :: l').Pairwise fun a b : Str × Str => a.1 < b.1) :
    (∀ a ∈ l, e.1 ≠ a.1 ∧ backup e.1 ≠ a.1) ∧ ∀ a ∈ l', e.1 ≠ a.1 ∧ e.1 ≠ backup a.1 := by
  obtain ⟨-, hr, hx⟩ := List.pairwise_append.1 h
  constructor
  · intro a ha
    have hlt := hx a ha e List.mem_cons_self
    constructor
    · intro he
      rw [he] at hlt
      exact List.lt_irrefl _ hlt
    · intro he
      have hb := lt_backup e.1
      rw [he] at hb
      exact List.lt_irrefl _ (List.lt_trans hlt hb)
  · intro a ha
    have hlt := (List.pairwise_cons.1 hr).1 a ha
    constructor
    · intro he
      rw [he] at hlt
      exact List.lt_irrefl _ hlt
    · intro he
      have hb := lt_backup a.1
      rw [← he] at hb
      exact List.lt_irrefl _ (List.lt_trans hlt hb)

/-- The files as they were, but for the backups of old, which are not restored. -/
def Kept (m : ContextMap) (fs fs' : FS) : Prop :=
  ∀ q, fs' q = fs q ∨ fs' q = none ∧ (∃ e ∈ m.pending, q = backup e.1) ∧ ∀ e ∈ m.pending, q ≠ e.1

/-- Whichever call fails, `save` writes every file or leaves every file as it was. -/
def AllOrNothing (m : ContextMap) (fs : FS) : Prop :=
  ∀ k, match run m fs k with
    | (.ok _, w) => ∀ e ∈ m.pending, w.fs e.1 = some e.2
    | (.error _, w) => Kept m fs w.fs

/-- Neither a file nor a backup is there before. -/
def Fresh (m : ContextMap) (fs : FS) : Prop :=
  ∀ e ∈ m.pending, fs e.1 = none ∧ fs (backup e.1) = none ∧ ∀ e' ∈ m.pending, backup e.1 ≠ e'.1

theorem not_kept_of_some (he : e ∈ m.pending) (h : fs e.1 = some v) (h' : fs' e.1 = none) : ¬ Kept m fs fs' := by
  intro hk
  rcases hk e.1 with hq | ⟨-, -, hq⟩
  · rw [h, h'] at hq
    cases hq
  · exact hq e he rfl

theorem not_kept_of_none (h : fs p = none) (h' : fs' p = some v) : ¬ Kept m fs fs' := by
  intro hk
  rcases hk p with hq | ⟨hq, -⟩
  · rw [h, h'] at hq
    cases hq
  · rw [h'] at hq
    cases hq

theorem AllOrNothing.kept (h : AllOrNothing m fs) (hr : run m fs k = (.error (), w)) : Kept m fs w.fs := by
  have hk := h k
  rw [hr] at hk
  exact hk

/-- A file that is there is lost: by the outer handler if its own backup cannot be removed, or it is the backup of
another file, and gone when its turn comes. -/
theorem fs_none (h : AllOrNothing m fs) (he : e ∈ m.pending) : fs e.1 = none := by
  by_contra hv
  obtain ⟨v, hv⟩ := Option.ne_none_iff_exists'.1 hv
  obtain ⟨l, l', hl⟩ := List.append_of_mem he
  have hn := m.pending_ne
  have hs := m.pending_sorted
  rw [hl] at hn hs
  have hlt := (ne_of_sorted hs).1
  obtain ⟨k, hk⟩ := saveFiles_append (fun a ha => hn a (List.mem_append_left _ ha)) fs []
  have he0 : e.1 ≠ [] := hn e (by simp)
  have hne : ∀ p ∈ names l, e.1 ≠ p := by
    intro p hp
    obtain ⟨a, ha, rfl⟩ := List.mem_map.1 hp
    exact (hlt a ha).1
  cases h1 : after fs l e.1 with
  | none =>
    have hr : (saveFiles m.pending).on ⟨fs, some (k + 0), []⟩ = (.error (), ⟨after fs l, none, names l⟩) := by
      rw [hl, hk 0]
      exact saveFiles_error he0 (saveFile_new h1 0 e.2 _) l'
    have hw := h.kept (run_error hr)
    exact not_kept_of_some he hv (restores_none hne h1) hw
  | some u =>
    have hr : (saveFiles m.pending).on ⟨fs, some (k + 3), []⟩ =
        (.error (), ⟨Function.update (after fs l) (backup e.1) none, none, names l ++ [e.1]⟩) := by
      rw [hl, hk 3]
      exact saveFiles_error he0 (saveFile_old h1 e.2 _) l'
    have hw := h.kept (run_error hr)
    apply not_kept_of_some he hv ?_ hw
    rw [List.foldl_append]
    apply (restored_self _ _).trans
    apply restores_none
    · intro p hp
      obtain ⟨a, ha, rfl⟩ := List.mem_map.1 hp
      exact (hlt a ha).2
    · exact Function.update_self _ _ _

/-- A new file is there, and its backup cannot be removed. -/
theorem run_new (hn : ∀ e ∈ m.pending, fs e.1 = none) (hl : m.pending = l ++ e :: l') : ∃ k, run m fs k =
    (.error (), ⟨(names l ++ [e.1]).foldl restored (Function.update (after fs l) e.1 (some e.2)), none,
      names l ++ [e.1]⟩) := by
  have h0 := m.pending_ne
  have hs := m.pending_sorted
  rw [hl] at h0 hs
  have he0 : e.1 ≠ [] := h0 e (by simp)
  have he : after fs l e.1 = none := by
    apply after_none fun a ha => ((ne_of_sorted hs).1 a ha).1
    exact hn e (hl ▸ by simp)
  obtain ⟨k, hk⟩ := saveFiles_append (fun a ha => h0 a (List.mem_append_left _ ha)) fs []
  refine ⟨k + 2, run_error ?_⟩
  rw [hl, hk 2]
  exact saveFiles_error he0 (saveFile_new he 2 e.2 _) l'

/-- The backup of a file is no pending file: else it would be put back under the name of the former. -/
theorem backup_not_pending (h : AllOrNothing m fs) (he : e ∈ m.pending) (he' : e' ∈ m.pending) :
    backup e.1 ≠ e'.1 := by
  intro hb
  have hn : ∀ a ∈ m.pending, fs a.1 = none := fun a ha => fs_none h ha
  obtain ⟨l, l', hl⟩ := List.append_of_mem he
  have hs := m.pending_sorted
  have hmem : e' ∈ l' := by
    rw [hl] at hs he'
    rcases List.mem_append.1 he' with ha | ha
    · exact absurd hb ((ne_of_sorted hs).1 e' ha).2
    · rcases List.mem_cons.1 ha with rfl | ha
      · exact absurd hb.symm (ne_backup _)
      · exact ha
  obtain ⟨l1, l2, rfl⟩ := List.append_of_mem hmem
  have hl' : m.pending = (l ++ e :: l1) ++ e' :: l2 := by rw [hl]; simp
  obtain ⟨k, hk⟩ := run_new hn hl'
  have hw := h.kept hk
  rw [hl] at hs
  obtain ⟨hlt, hgt⟩ := ne_of_sorted hs
  apply not_kept_of_none (hn e he) (p := e.1) (v := e'.2) ?_ hw
  have hsplit : names (l ++ e :: l1) ++ [e'.1] = names l ++ e.1 :: (names l1 ++ [e'.1]) := by simp [names]
  rw [hsplit]
  apply Eq.trans (congrFun (List.foldl_append (l := names l)) e.1)
  rw [List.foldl_cons]
  have hgt' : ∀ p ∈ names l1 ++ [e'.1], e.1 ≠ p ∧ e.1 ≠ backup p := by
    intro p hp
    rcases List.mem_append.1 hp with hp | hp
    · obtain ⟨a, ha, rfl⟩ := List.mem_map.1 hp
      exact hgt a (List.mem_append_left _ ha)
    · rw [List.mem_singleton.1 hp]
      exact hgt e' (by simp)
  rw [restores_of_ne (fun p hp => (hgt' p hp).1) fun p hp => (hgt' p hp).2, restored_self, hb, restores_of_ne,
    Function.update_self]
  · intro p hp
    obtain ⟨a, ha, rfl⟩ := List.mem_map.1 hp
    exact hb ▸ (hlt a ha).2
  · intro p hp hq
    obtain ⟨a, ha, rfl⟩ := List.mem_map.1 hp
    exact (hlt a ha).1 (backup_inj (hb.trans hq))

/-- A backup of old would be put back under the name of the new file. -/
theorem backup_none (h : AllOrNothing m fs) (he : e ∈ m.pending) : fs (backup e.1) = none := by
  by_contra hv
  obtain ⟨v, hv⟩ := Option.ne_none_iff_exists'.1 hv
  have hn : ∀ a ∈ m.pending, fs a.1 = none := fun a ha => fs_none h ha
  obtain ⟨l, l', hl⟩ := List.append_of_mem he
  obtain ⟨k, hk⟩ := run_new hn hl
  have hw := h.kept hk
  have hs := m.pending_sorted
  rw [hl] at hs
  have hlt := (ne_of_sorted hs).1
  apply not_kept_of_none (hn e he) (p := e.1) (v := v) ?_ hw
  rw [List.foldl_append]
  apply (restored_self _ _).trans
  have hb : ∀ a ∈ l, backup e.1 ≠ backup a.1 := fun a ha hq => (hlt a ha).1 (backup_inj hq)
  rw [restores_of_ne, Function.update_of_ne (ne_backup _).symm, after_of_ne (fun a ha => (hlt a ha).2) hb, hv]
  · intro p hp
    obtain ⟨a, ha, rfl⟩ := List.mem_map.1 hp
    exact (hlt a ha).2
  · intro p hp
    obtain ⟨a, ha, rfl⟩ := List.mem_map.1 hp
    exact hb a ha

theorem written_fresh (h : fs (backup p) = none) (c : Str) : written fs p c = Function.update fs p (some c) := by
  apply Function.update_eq_self_iff.2
  rw [Function.update_of_ne (ne_backup p).symm, h]

theorem written_self (fs : FS) (p c : Str) : written fs p c p = some c := by
  simp [written, ne_backup]

theorem after_mem (h : l.Pairwise fun a b : Str × Str => a.1 < b.1) (he : e ∈ l) (fs : FS) :
    after fs l e.1 = some e.2 := by
  obtain ⟨l1, l2, rfl⟩ := List.append_of_mem he
  have hgt := (ne_of_sorted h).2
  rw [after_append]
  apply (after_of_ne (fun a ha => (hgt a ha).1) (fun a ha => (hgt a ha).2) _).trans
  exact written_self _ _ _

/-- On a fresh disk some first part of the files is saved when a call fails. -/
theorem saveFiles_fresh (h0 : ∀ e ∈ l, e.1 ≠ []) (hs : l.Pairwise fun a b : Str × Str => a.1 < b.1)
    (hf : ∀ e ∈ l, fs e.1 = none ∧ fs (backup e.1) = none ∧ ∀ e' ∈ l, backup e.1 ≠ e'.1) (k : Nat) (s : List Str) :
    (∃ n, (saveFiles l).on ⟨fs, some k, s⟩ = (.ok (), ⟨after fs l, some n, s ++ names l⟩)) ∨
      ∃ l', l' <+: l ∧ (saveFiles l).on ⟨fs, some k, s⟩ = (.error (), ⟨after fs l', none, s ++ names l'⟩) := by
  induction l generalizing fs k s with
  | nil => exact .inl ⟨k, by simp [saveFiles, after, names]⟩
  | cons e l ih =>
    obtain ⟨p, c⟩ := e
    have hp : p ≠ [] := h0 (p, c) List.mem_cons_self
    obtain ⟨hn, hb, hne⟩ := hf (p, c) List.mem_cons_self
    have hr := saveFile_new hn k c s
    match k with
    | 0 => exact .inr ⟨[], List.nil_prefix, by rw [saveFiles_error hp hr, names, List.map_nil, List.append_nil]; rfl⟩
    | 1 => exact .inr ⟨[], List.nil_prefix, by rw [saveFiles_error hp hr, names, List.map_nil, List.append_nil]; rfl⟩
    | 2 =>
      refine .inr ⟨[(p, c)], ⟨l, rfl⟩, ?_⟩
      rw [saveFiles_error hp hr, ← written_fresh hb]
      rfl
    | k + 3 =>
      have hlt := (List.pairwise_cons.1 hs).1
      have hf' : ∀ e ∈ l, written fs p c e.1 = none ∧ written fs p c (backup e.1) = none ∧
          ∀ e' ∈ l, backup e.1 ≠ e'.1 := by
        intro e he
        obtain ⟨h1, h2, h3⟩ := hf e (List.mem_cons_of_mem _ he)
        have hpe : e.1 ≠ p := by
          intro hq
          have hlt' := hlt e he
          rw [hq] at hlt'
          exact List.lt_irrefl _ hlt'
        exact ⟨written_none hpe h1 c, written_none (h3 (p, c) List.mem_cons_self) h2 c,
          fun e' he' => h3 e' (List.mem_cons_of_mem _ he')⟩
      rw [saveFiles_ok hp hr]
      rcases ih (fun e he => h0 e (List.mem_cons_of_mem _ he)) (List.pairwise_cons.1 hs).2 hf' k (s ++ [p]) with
        ⟨n, hr⟩ | ⟨l', hl', hr⟩
      · refine .inl ⟨n, ?_⟩
        rw [hr, List.append_assoc]
        rfl
      · refine .inr ⟨(p, c) :: l', List.cons_prefix_cons.2 ⟨rfl, hl'⟩, ?_⟩
        rw [hr, List.append_assoc]
        rfl

theorem restores_fresh {l : List Str} (h : ∀ p ∈ l, fs (backup p) = none) (q : Str) :
    l.foldl restored fs q = if q ∈ l then none else fs q := by
  induction l generalizing fs with
  | nil => simp
  | cons p l ih =>
    rw [List.forall_mem_cons] at h
    have hp : restored fs p = Function.update fs p none := by
      funext q
      by_cases hq : q = p
      · rw [hq, restored_self, h.1, Function.update_self]
      · by_cases hb : q = backup p
        · rw [hb, restored_none (ne_backup p).symm h.1, Function.update_of_ne (ne_backup p).symm, h.1]
        · rw [restored_of_ne hq hb, Function.update_of_ne hq]
    have hl : ∀ p' ∈ l, restored fs p (backup p') = none := by
      intro p' hp'
      rw [hp]
      by_cases hq : backup p' = p
      · rw [hq, Function.update_self]
      · rw [Function.update_of_ne hq, h.2 p' hp']
    rw [List.foldl_cons, ih hl, hp]
    by_cases hq : q = p <;> simp [hq]

theorem Fresh.allOrNothing (h : Fresh m fs) : AllOrNothing m fs := by
  intro k
  rcases saveFiles_fresh m.pending_ne m.pending_sorted h k [] with ⟨n, hr⟩ | ⟨l, hl, hr⟩
  · rw [run_ok hr]
    exact fun e he => after_mem m.pending_sorted he fs
  · rw [run_error hr]
    intro q
    left
    have hmem : ∀ e ∈ l, e ∈ m.pending := fun e he => hl.subset he
    have hb : ∀ p ∈ names l, after fs l (backup p) = none := by
      intro p hp
      obtain ⟨e, he, rfl⟩ := List.mem_map.1 hp
      obtain ⟨-, h2, h3⟩ := h e (hmem e he)
      exact after_none (fun a ha => h3 a (hmem a ha)) h2
    apply (restores_fresh hb q).trans
    by_cases hq : q ∈ names l
    · obtain ⟨e, he, rfl⟩ := List.mem_map.1 hq
      rw [if_pos hq, (h e (hmem e he)).1]
    · rw [if_neg hq]
      have hne : ∀ e ∈ l, q ≠ e.1 := by
        intro e he hqe
        exact hq (hqe ▸ List.mem_map.2 ⟨e, he, rfl⟩)
      by_cases hqb : ∃ e ∈ l, q = backup e.1
      · obtain ⟨e, he, rfl⟩ := hqb
        have hn := (h e (hmem e he)).2.1
        rw [after_none hne hn, hn]
      · exact after_of_ne hne (fun e he hqe => hqb ⟨e, he, hqe⟩) fs

theorem save_allOrNothing (m : ContextMap) (fs : FS) : AllOrNothing m fs ↔ Fresh m fs := by
  constructor
  · intro h e he
    exact ⟨fs_none h he, backup_none h he, fun e' he' => backup_not_pending h he he'⟩
  · exact Fresh.allOrNothing

/-- The only generated file is there, and the rename that makes its backup fails: the file is removed. -/
theorem not_save_allOrNothing : ∃ m fs k, (run m fs k).1 = .error () ∧ fs ['a'] = some ['1'] ∧
    (run m fs k).2.fs ['a'] = none ∧ ¬ AllOrNothing m fs := by
  let m : ContextMap := ⟨[(['a'], ['2'])], List.pairwise_singleton _ _⟩
  let fs : FS := fun p => if p = ['a'] then some ['1'] else none
  refine ⟨m, fs, 1, rfl, rfl, rfl, ?_⟩
  intro h
  have he : (['a'], ['2']) ∈ m.pending := by simp [m, ContextMap.pending]
  have hn := fs_none h he
  cases hn

end AspKernel.Toppers.OutputFile
