import AutomataStore.Proofs.EscapedText
import AutomataStore.Storage.Files
import Mathlib.Data.List.DropRight

/-
  The names that a codec proposes for files.

  A proposed name prolongs a name by the suffix once.  If the
  suffix is a dot and a known extension, a file of that name
  is accepted exactly if something stands before the suffix
  in the last part of its path.

  Key definitions include:
    * `PathName.lastPart`
    * `CodecOptions.SuffixIsKnown`

  Main declarations:
    * `PathName.getLast?_trimmed`
    * `PathName.extension?_suffixed`
    * `Codec.proposeName_proposeName`
    * `Codec.proposeName_stable_accepted`
-/

------------------------------------------------------------
-- Last Parts
------------------------------------------------------------

namespace AutomataStore

namespace PathName

/- Cutting gives one segment at least. -/
theorem cutAtSlashes_ne_nil
    (cs : List Char) :
    cutAtSlashes cs ≠ [] := by
  cases cs with
  | nil => simp [cutAtSlashes]
  | cons c cs =>
      rw [cutAtSlashes]
      split
      · exact List.cons_ne_nil _ _
      · split <;> exact List.cons_ne_nil _ _

/- A list is cut at each of its slashes. -/
theorem cutAtSlashes_append_slash
    (cs ds : List Char) :
    cutAtSlashes (cs ++ '/' :: ds) =
      cutAtSlashes cs ++ cutAtSlashes ds := by
  induction cs with
  | nil => simp [cutAtSlashes]
  | cons c cs ih =>
      simp only [List.cons_append, cutAtSlashes, ih]
      split
      · rfl
      · cases hCut : cutAtSlashes cs with
        | nil => exact absurd hCut (cutAtSlashes_ne_nil cs)
        | cons first others => rfl

/- Without a slash there is nothing to cut. -/
theorem cutAtSlashes_of_not_mem
    {cs : List Char}
    (hcs : '/' ∉ cs) :
    cutAtSlashes cs = [cs] := by
  induction cs with
  | nil => rfl
  | cons c cs ih =>
      rw [List.mem_cons, not_or] at hcs
      rw [cutAtSlashes, if_neg (Ne.symm hcs.1), ih hcs.2]

/- Characters of a list differ from one that is not in it. -/
theorem ne_of_mem_reverse
    {stop : Char}
    {cs : List Char}
    (hStop : stop ∉ cs) :
    ∀ c ∈ cs.reverse, decide (c ≠ stop) = true := by
  intro c hc
  have hNe : c ≠ stop := by
    rintro rfl
    exact hStop (List.mem_reverse.mp hc)
  simpa using hNe

/- The last part of a path: what follows its last slash. -/
def lastPart (path : String) : String :=
  String.ofList (path.toList.rtakeWhile (· ≠ '/'))

/- The last part goes on when a path is prolonged inside it. -/
theorem lastPart_append
    (path : String)
    {more : String}
    (hMore : '/' ∉ more.toList) :
    lastPart (path ++ more) = lastPart path ++ more := by
  rw [lastPart, String.toList_append, List.rtakeWhile,
    List.reverse_append,
    List.takeWhile_append_of_pos (ne_of_mem_reverse hMore),
    List.reverse_append, List.reverse_reverse,
    String.ofList_append, String.ofList_toList]
  rfl

/- What follows the last slash is cut off last. -/
theorem getLast?_cutAtSlashes
    (cs : List Char) :
    (cutAtSlashes cs).getLast? =
      some (cs.rtakeWhile (· ≠ '/')) := by
  have hWhole :
      cs.rdropWhile (· ≠ '/') ++ cs.rtakeWhile (· ≠ '/') =
        cs :=
    List.rdropWhile_append_rtakeWhile
  have hLast : '/' ∉ cs.rtakeWhile (· ≠ '/') := by
    intro hMem
    simpa using List.mem_rtakeWhile_imp hMem
  rcases List.eq_nil_or_concat' (cs.rdropWhile (· ≠ '/')) with
    hFront | ⟨front, c, hFront⟩
  · rw [hFront, List.nil_append] at hWhole
    rw [hWhole] at hLast ⊢
    rw [cutAtSlashes_of_not_mem hLast]
    rfl
  · have hSlash : c = '/' := by
      have hStop :=
        List.rdropWhile_last_not (· ≠ '/') cs
          (by rw [hFront]; exact List.concat_ne_nil c front)
      simp only [hFront, List.getLast_append_singleton] at hStop
      simpa using hStop
    rw [hFront, hSlash, List.append_assoc] at hWhole
    conv_lhs => rw [← hWhole]
    rw [List.singleton_append, cutAtSlashes_append_slash,
      cutAtSlashes_of_not_mem hLast]
    simp

/- The last of the segments is the last part. -/
theorem getLast?_segments
    (path : String) :
    (segments path).getLast? = some (lastPart path) := by
  rw [segments, List.getLast?_map, getLast?_cutAtSlashes]
  rfl

/- The last place a path names, if its last part names one. -/
theorem getLast?_trimmed
    {path : String}
    (hPlace : isIdle (lastPart path) = false) :
    (trimmed path).getLast? = some (lastPart path) := by
  rcases List.getLast?_eq_some_iff.mp
    (getLast?_segments path) with ⟨others, hSegments⟩
  have hKept :
      (others ++ [lastPart path]).rdropWhile isIdle =
        others ++ [lastPart path] :=
    List.rdropWhile_concat_neg isIdle others _ (by simp [hPlace])
  rw [trimmed, hSegments, ← List.getLast?_concat (l := others)]
  exact congrArg List.getLast? hKept

------------------------------------------------------------
-- Extensions
------------------------------------------------------------

/- What ends with something other than a dot names a place. -/
theorem not_isIdle_of_getLast?
    {name : String}
    {c : Char}
    (hLast : name.toList.getLast? = some c)
    (hc : c ≠ '.') :
    isIdle name = false ∧ name ≠ ".." := by
  have hNe :
      ∀ s ∈ ["", ".", ".."], name ≠ s := by
    intro s hs hEq
    subst hEq
    simp only [List.mem_cons, List.not_mem_nil, or_false] at hs
    rcases hs with rfl | rfl | rfl <;>
      simp [hc.symm] at hLast
  refine ⟨?_, hNe ".." (by simp)⟩
  simp [isIdle, hNe "" (by simp), hNe "." (by simp)]

/-
  A dot and what follows it is the extension of a file name,
  if there is no later dot and something stands before it.
-/
theorem extensionOf?_suffixed
    (stem : String)
    {e : String}
    (hDot : '.' ∉ e.toList) :
    extensionOf? (stem ++ ("." ++ e)) =
      if stem = "" then none else some e := by
  have hChars :
      (stem ++ ("." ++ e)).toList.reverse =
        e.toList.reverse ++ '.' :: stem.toList.reverse := by
    simp
  have hSplit :=
    takeWhile_dropWhile_append_cons (ne_of_mem_reverse hDot)
      (by simp : decide ('.' ≠ '.') = false)
      stem.toList.reverse
  rw [extensionOf?]
  simp only [hChars, hSplit.1, hSplit.2, List.reverse_reverse,
    String.ofList_toList]
  cases hStem : stem.toList.reverse with
  | nil =>
      have hNone : stem = "" := by simpa using hStem
      rw [if_pos hNone]
  | cons c cs =>
      have hSome : stem ≠ "" := by
        rintro rfl
        simp at hStem
      rw [if_neg hSome]

/-
  The extension of a path that ends with a dot and an
  extension, if something stands before it in the last part.
-/
theorem extension?_suffixed
    (path : String)
    {e : String}
    (hNe : e ≠ "")
    (hDot : '.' ∉ e.toList)
    (hSlash : '/' ∉ e.toList) :
    (trimmed (path ++ ("." ++ e))).getLast? =
        some (lastPart path ++ ("." ++ e)) ∧
      extension? (path ++ ("." ++ e)) =
        if lastPart path = "" then none else some e := by
  have hLastPart :
      lastPart (path ++ ("." ++ e)) =
        lastPart path ++ ("." ++ e) :=
    lastPart_append path (by simpa using hSlash)
  rcases List.eq_nil_or_concat' e.toList with
    hNone | ⟨front, c, hLast⟩
  · exact absurd (by simpa using hNone) hNe
  · have hc : c ≠ '.' := by
      rintro rfl
      exact hDot (by simp [hLast])
    have hPlace :
        isIdle (lastPart path ++ ("." ++ e)) = false ∧
          lastPart path ++ ("." ++ e) ≠ ".." := by
      refine not_isIdle_of_getLast? ?_ hc
      rw [String.toList_append, String.toList_append, hLast,
        ← List.append_assoc, ← List.append_assoc]
      exact List.getLast?_concat
    have hTrimmed :
        (trimmed (path ++ ("." ++ e))).getLast? =
          some (lastPart path ++ ("." ++ e)) := by
      have hIdle :
          isIdle (lastPart (path ++ ("." ++ e))) = false := by
        rw [hLastPart]
        exact hPlace.1
      rw [getLast?_trimmed hIdle, hLastPart]
    refine ⟨hTrimmed, ?_⟩
    simp only [extension?, hTrimmed, if_neg hPlace.2]
    exact extensionOf?_suffixed (lastPart path) hDot

end PathName

------------------------------------------------------------
-- Proposed Names
------------------------------------------------------------

/-
  The suffix of proposed names is a dot and an extension that
  files are accepted by.
-/
structure CodecOptions.SuffixIsKnown
    (o : CodecOptions)
    (extension : String) : Prop where
  suffix_eq : o.suffix = "." ++ extension
  ne_empty : extension ≠ ""
  dot_not_mem : '.' ∉ extension.toList
  slash_not_mem : '/' ∉ extension.toList
  known : extension ∈ o.extensions

namespace Codec

/- A proposed name is a stem with the suffix. -/
theorem exists_stem
    (c : Codec)
    (name : String) :
    ∃ stem,
      c.proposeName name = stem ++ c.options.suffix := by
  unfold proposeName
  split
  · rename_i hEnds
    rcases List.isSuffixOf_iff_suffix.mp hEnds with
      ⟨stem, hStem⟩
    refine ⟨String.ofList stem, ?_⟩
    rw [← String.toList_inj, String.toList_append,
      String.toList_ofList, hStem]
  · exact ⟨name, rfl⟩

/- A proposed name ends with the suffix. -/
theorem suffix_proposeName
    (c : Codec)
    (name : String) :
    c.options.suffix.toList <:+
      (c.proposeName name).toList := by
  rcases c.exists_stem name with ⟨stem, hStem⟩
  rw [hStem, String.toList_append]
  exact List.suffix_append ..

/- A proposed name starts with the name. -/
theorem prefix_proposeName
    (c : Codec)
    (name : String) :
    name.toList <+: (c.proposeName name).toList := by
  unfold proposeName
  split
  · exact List.prefix_rfl
  · rw [String.toList_append]
    exact List.prefix_append ..

/- A proposed name is its own proposal. -/
theorem proposeName_proposeName
    (c : Codec)
    (name : String) :
    c.proposeName (c.proposeName name) =
      c.proposeName name := by
  conv_lhs => rw [proposeName]
  rw [if_pos]
  exact List.isSuffixOf_iff_suffix.mpr
    (c.suffix_proposeName name)

/-
  If the suffix is a dot and a known extension, a proposed
  name prolongs the name it is proposed for, ends with the
  suffix, and is its own proposal.  Its last part is the last
  place it names.  If there is no folder at it, it is accepted
  exactly if its last part is longer than the suffix.
-/
theorem proposeName_stable_accepted
    (c : Codec)
    {extension : String}
    (hSuffix : c.options.SuffixIsKnown extension)
    (name : String) :
    name.toList <+: (c.proposeName name).toList ∧
      c.options.suffix.toList <:+
        (c.proposeName name).toList ∧
      c.proposeName (c.proposeName name) =
        c.proposeName name ∧
      (PathName.trimmed (c.proposeName name)).getLast? =
        some (PathName.lastPart (c.proposeName name)) ∧
      ∀ fs : Files,
        fs.isFolder (c.proposeName name) = false →
          (c.accepts (fs.isFolder (c.proposeName name))
              (c.proposeName name) = true ↔
            c.options.suffix.length <
              (PathName.lastPart
                (c.proposeName name)).length) := by
  refine ⟨c.prefix_proposeName name, c.suffix_proposeName name,
    c.proposeName_proposeName name, ?_⟩
  rcases c.exists_stem name with ⟨stem, hStem⟩
  rw [hSuffix.suffix_eq] at hStem
  have hExtension :=
    PathName.extension?_suffixed stem hSuffix.ne_empty
      hSuffix.dot_not_mem hSuffix.slash_not_mem
  have hLastPart :
      PathName.lastPart (stem ++ ("." ++ extension)) =
        PathName.lastPart stem ++ ("." ++ extension) :=
    PathName.lastPart_append stem
      (by simpa using hSuffix.slash_not_mem)
  rw [hStem, hLastPart]
  refine ⟨hExtension.1, ?_⟩
  intro fs hFolder
  rw [hFolder, accepts, hExtension.2, hSuffix.suffix_eq,
    String.length_append, Bool.false_or]
  by_cases hAlone : PathName.lastPart stem = ""
  · simp [hAlone]
  · have hLength : 0 < (PathName.lastPart stem).length :=
      Nat.pos_of_ne_zero
        (mt String.length_eq_zero_iff.mp hAlone)
    simp [hAlone, hSuffix.known, hLength]

/- The suffix of the options by default is known. -/
theorem suffixIsKnown_default :
    ({} : CodecOptions).SuffixIsKnown "jff" where
  suffix_eq := rfl
  ne_empty := by decide
  dot_not_mem := by decide
  slash_not_mem := by decide
  known := by decide

/-
  For "notes/lang" a file is proposed that is accepted, for
  "notes/" one that is not: nothing stands before its suffix.
-/
theorem proposeName_stable_accepted_notes :
    (Files.isFolder {} "notes/lang.jff" = false ∧
        accepts {} (Files.isFolder {} "notes/lang.jff")
          "notes/lang.jff" = true) ∧
      Files.isFolder {} "notes/.jff" = false ∧
        accepts {} (Files.isFolder {} "notes/.jff")
          "notes/.jff" = false := by
  have hLang :=
    (proposeName_stable_accepted {} suffixIsKnown_default
      "notes/lang").2.2.2.2 {}
  have hAlone :=
    (proposeName_stable_accepted {} suffixIsKnown_default
      "notes/").2.2.2.2 {}
  have hLangName :
      proposeName {} "notes/lang" = "notes/lang.jff" := by
    decide
  have hAloneName :
      proposeName {} "notes/" = "notes/.jff" := by
    decide
  have hFree :
      Files.isFolder {} "notes/lang.jff" = false ∧
        Files.isFolder {} "notes/.jff" = false := by
    decide +kernel
  have hLengths :
      ".jff".length <
          (PathName.lastPart "notes/lang.jff").length ∧
        ¬ ".jff".length <
          (PathName.lastPart "notes/.jff").length := by
    decide
  rw [hLangName] at hLang
  rw [hAloneName] at hAlone
  refine ⟨⟨hFree.1, ?_⟩, hFree.2, ?_⟩
  · exact (hLang hFree.1).mpr hLengths.1
  · rw [Bool.eq_false_iff]
    exact mt (hAlone hFree.2).mp hLengths.2

end Codec

end AutomataStore
