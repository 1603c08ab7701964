import AutomataStore.Storage.Files

/-
  Writing and removing files.

  What is put at a location is found there, and every other
  location keeps its entry.  What was put at a free location
  can be taken away again.  A file in a place that was no
  folder changes where no path leads.

  Key definitions include:
    * `Files.ReplacedAt`

  Main declarations:
    * `Files.entry?_put`
    * `Files.put_put`, `Files.remove_put`
    * `Files.resolve?_put_file`
    * `Files.write?_eq_some_iff`
    * `Files.read?_put_file`
    * `Files.replacedAt_put_file`
-/

------------------------------------------------------------
-- Entries
------------------------------------------------------------

namespace AutomataStore

namespace Files

/- A location other than the root is looked up. -/
theorem entry?_of_ne_nil
    (fs : Files)
    {l : Location}
    (hl : l ≠ []) :
    fs.entry? l = fs.entries.lookup l := by
  simp [Files.entry?, hl]

/- A free location is not the root. -/
theorem ne_nil_of_entry?_eq_none
    {fs : Files}
    {l : Location}
    (hFree : fs.entry? l = none) :
    l ≠ [] := by
  rintro rfl
  cases hFree

/- No entry is at a free location. -/
theorem ne_of_entry?_eq_none
    {fs : Files}
    {l : Location}
    (hFree : fs.entry? l = none) :
    ∀ x ∈ fs.entries, x.1 ≠ l := by
  rw [entry?_of_ne_nil fs (ne_nil_of_entry?_eq_none hFree),
    List.lookup_eq_none_iff] at hFree
  intro x hx
  exact (bne_iff_ne.mp (hFree x hx)).symm

/- A place that is no folder is not the root. -/
theorem ne_nil_of_not_folder
    {fs : Files}
    {l : Location}
    (hPlace : fs.entry? l ≠ some .folder) :
    l ≠ [] := by
  rintro rfl
  exact hPlace rfl

/- Entries that are replaced at a location. -/
theorem lookup_replaced
    (entries : List (Location × Entry))
    (l : Location)
    (e : Entry)
    (k : Location) :
    (entries.map fun x => if x.1 = l then (l, e) else x).lookup
        k =
      if k = l then
        (entries.lookup k).map fun _ => e
      else
        entries.lookup k := by
  induction entries with
  | nil => simp
  | cons x entries ih =>
      rcases x with ⟨l', e'⟩
      rw [List.map_cons]
      by_cases hHere : l' = l
      · subst hHere
        by_cases hKey : k = l'
        · simp [hKey]
        · have hNot : (k == l') = false := by simpa using hKey
          simpa [List.lookup_cons, hNot, hKey] using ih
      · by_cases hKey : k = l'
        · subst hKey
          simp [hHere]
        · have hNot : (k == l') = false := by simpa using hKey
          simpa [List.lookup_cons, hNot, hHere] using ih

/- What is put at a location is there, and nowhere else. -/
theorem entry?_put
    (fs : Files)
    {l : Location}
    (hl : l ≠ [])
    (e : Entry)
    (k : Location) :
    entry? (fs.put l e) k =
      if k = l then some e else fs.entry? k := by
  by_cases hRoot : k = []
  · subst hRoot
    rw [if_neg hl.symm]
    rfl
  · rw [entry?_of_ne_nil _ hRoot, entry?_of_ne_nil _ hRoot, put]
    cases hOld : fs.entry? l with
    | some old =>
        simp only [Option.isSome_some, if_true]
        rw [lookup_replaced]
        by_cases hKey : k = l
        · subst hKey
          rw [entry?_of_ne_nil _ hRoot] at hOld
          simp [hOld]
        · simp [hKey]
    | none =>
        rw [entry?_of_ne_nil _ hl] at hOld
        simp only [Option.isSome_none, Bool.false_eq_true,
          if_false]
        rw [List.lookup_append]
        by_cases hKey : k = l
        · subst hKey
          simp [hOld]
        · have hNot : (k == l) = false := by simpa using hKey
          simp [List.lookup_cons, hNot, hKey]

/- Only the last entry that was put at a location matters. -/
theorem put_put
    {fs : Files}
    {l : Location}
    (hFree : fs.entry? l = none)
    (e e' : Entry) :
    (fs.put l e).put l e' = fs.put l e' := by
  have hl := ne_nil_of_entry?_eq_none hFree
  have hOthers := ne_of_entry?_eq_none hFree
  have hThere : entry? (fs.put l e) l = some e := by
    rw [entry?_put fs hl, if_pos rfl]
  have hKept :
      (fs.entries.map fun x => if x.1 = l then (l, e') else x) =
        fs.entries := by
    rw [List.map_congr_left fun x hx => if_neg (hOthers x hx),
      List.map_id']
  have hReplaced :
      (fs.put l e).put l e' =
        { fs.put l e with
          entries := (fs.put l e).entries.map
            fun x => if x.1 = l then (l, e') else x } := by
    rw [put, hThere]
    rfl
  rw [hReplaced]
  simp [put, hFree, hKept]

/- What was put at a free location is taken away again. -/
theorem remove_put
    {fs : Files}
    {l : Location}
    (hFree : fs.entry? l = none)
    (e : Entry) :
    (fs.put l e).remove l = fs := by
  have hOthers := ne_of_entry?_eq_none hFree
  have hKept :
      (fs.entries.filter fun x => x.1 ≠ l) = fs.entries := by
    refine List.filter_eq_self.mpr fun x hx => ?_
    simpa using hOthers x hx
  rcases fs with ⟨entries, working⟩
  simpa [put, remove, hFree] using hKept

------------------------------------------------------------
-- Paths
------------------------------------------------------------

/- Paths lead to the same places past the same folders. -/
theorem walk?_congr
    {fs fs' : Files}
    (hFolders :
      ∀ l, fs.entry? l = some .folder ↔
        fs'.entry? l = some .folder)
    (l : Location)
    (segments : List String) :
    fs.walk? l segments = fs'.walk? l segments := by
  induction segments generalizing l with
  | nil => rfl
  | cons segment rest ih =>
      simp only [walk?, hFolders l, ih]

/-
  A file in a place that was no folder leaves all paths as
  they are.
-/
theorem resolve?_put_file
    {fs : Files}
    {place : Location}
    (hPlace : fs.entry? place ≠ some .folder)
    (content : Bytes)
    (path : String) :
    (fs.put place (.file content)).resolve? path =
      fs.resolve? path := by
  have hFolders :
      ∀ l, entry? (fs.put place (.file content)) l =
          some .folder ↔
        fs.entry? l = some .folder := by
    intro l
    rw [entry?_put fs (ne_nil_of_not_folder hPlace)]
    by_cases hKey : l = place
    · subst hKey
      simp [hPlace]
    · simp [hKey]
  simp only [resolve?, follow?]
  rw [walk?_congr hFolders]
  rfl

/- A file is written where its path leads to no folder. -/
theorem write?_eq_some_iff
    (fs after : Files)
    (path : String)
    (content : Bytes) :
    fs.write? path content = some after ↔
      ∃ place, fs.resolve? path = some place ∧
        fs.entry? place ≠ some .folder ∧
        fs.put place (.file content) = after := by
  unfold write?
  cases fs.resolve? path with
  | none => simp
  | some place =>
      by_cases hFolder : fs.entry? place = some .folder <;>
        simp [hFolder]

/- A file that was written is read. -/
theorem read?_put_file
    {fs : Files}
    {path : String}
    {place : Location}
    (hPath : fs.resolve? path = some place)
    (hPlace : fs.entry? place ≠ some .folder)
    (content : Bytes) :
    (fs.put place (.file content)).read? path =
      some content := by
  have hThere :
      entry? (fs.put place (.file content)) place =
        some (.file content) := by
    rw [entry?_put fs (ne_nil_of_not_folder hPlace), if_pos rfl]
  simp [read?, resolve?_put_file hPlace, hPath, hThere]

/-
  Exactly one place of the files has changed, and is a file
  with some content now.
-/
structure ReplacedAt
    (fs after : Files)
    (place : Location)
    (content : Bytes) : Prop where
  there : after.entry? place = some (.file content)
  elsewhere : ∀ l, l ≠ place → after.entry? l = fs.entry? l
  working_eq : after.working = fs.working

/- A file put where no folder is replaces that place alone. -/
theorem replacedAt_put_file
    {fs : Files}
    {place : Location}
    (hPlace : fs.entry? place ≠ some .folder)
    (content : Bytes) :
    fs.ReplacedAt (fs.put place (.file content)) place
      content where
  there := by
    rw [entry?_put fs (ne_nil_of_not_folder hPlace), if_pos rfl]
  elsewhere l hl := by
    rw [entry?_put fs (ne_nil_of_not_folder hPlace), if_neg hl]
  working_eq := rfl

end Files

end AutomataStore
