import ContestManagement.Server.FileMatching

/-!
# What the matching of files returns

Each function of the matching is given the meaning that its documentation states: a filename and an
element, a file and the format, all the files and the format, and at last the candidate languages.
The files are accepted in a language exactly if it is the only candidate that they all fit.
-/

namespace ContestManagement
namespace Server
namespace FileMatching

open Lib
open Lib.Filenames

/-- A language is there if the format has an element that needs one. -/
def Suits (language : Option Language) (submissionFormat : List String) : Prop :=
  ∀ element ∈ submissionFormat, isTemplate element = true → ∃ l, language = some l

/-! ## One filename -/

section Elements

variable {language : Option Language} {filename element : String}

theorem isTemplate_append (stem : String) : isTemplate (stem ++ ".%l") = true :=
  endsWith_iff.2 ⟨stem, rfl⟩

theorem splitextRoot_template {stem : String} (h : Named stem) :
    splitextRoot (stem ++ ".%l") = stem := by
  have hpath : (stem ++ ".%l").toList = stem.toList ++ '.' :: ['%', 'l'] := String.toList_append
  unfold splitextRoot
  rw [hpath, root_append (by decide) (by decide) h, String.ofList_toList]

theorem nameMatches_iff_of_plain (h : isTemplate element = false) :
    NameMatches language filename element ↔ filename = element := by
  constructor
  · intro hmatch
    cases hmatch with
    | plain _ => rfl
    | template _ _ _ =>
        rw [isTemplate_append] at h
        cases h
  · rintro rfl
    exact .plain h

theorem nameMatches_template_iff {l : Language} {stem : String} :
    NameMatches (some l) filename (stem ++ ".%l") ↔
      ∃ ext ∈ l.sourceExtensions, filename = stem ++ ext := by
  constructor
  · intro hmatch
    generalize helement : stem ++ ".%l" = element at hmatch
    cases hmatch with
    | plain hplain =>
        rw [← helement, isTemplate_append] at hplain
        cases hplain
    | @template stem' ext l' hl hext hfilename =>
        rw [Option.some.injEq] at hl
        subst hl
        have hstem : stem = stem' := (String.append_left_inj ".%l").1 helement
        exact ⟨ext, hext, hstem ▸ hfilename⟩
  · rintro ⟨ext, hext, hfilename⟩
    exact .template rfl hext hfilename

theorem matchFilename_ok (filename : String) (hsuits : isTemplate element = true → ∃ l, language = some l)
    (hnamed : ∀ stem, element = stem ++ ".%l" → Named stem) :
    ∃ found, matchFilename filename language element = .ok found ∧
      (found = true ↔ NameMatches language filename element) := by
  unfold matchFilename
  cases htemplate : isTemplate element with
  | false =>
      refine ⟨decide (filename = element), rfl, ?_⟩
      rw [nameMatches_iff_of_plain htemplate, decide_eq_true_eq]
  | true =>
      obtain ⟨l, rfl⟩ := hsuits htemplate
      obtain ⟨stem, rfl⟩ := endsWith_iff.1 htemplate
      refine ⟨_, rfl, ?_⟩
      rw [splitextRoot_template (hnamed stem rfl), nameMatches_template_iff, List.any_eq_true]
      simp

theorem matchExtension_ok (filename : Option String)
    (hsuits : isTemplate element = true → ∃ l, language = some l) :
    ∃ found, matchExtension filename language element = .ok found ∧
      (found = true ↔ ∀ name, filename = some name → ExtensionMatches language name element) := by
  unfold matchExtension
  cases filename with
  | none => exact ⟨true, rfl, by simp⟩
  | some name =>
      dsimp only
      cases htemplate : isTemplate element with
      | false =>
          refine ⟨true, rfl, iff_of_true rfl fun _ _ h => ?_⟩
          rw [htemplate] at h
          cases h
      | true =>
          obtain ⟨l, rfl⟩ := hsuits htemplate
          refine ⟨_, rfl, ?_⟩
          simp [ExtensionMatches, htemplate, endsWith_iff]

end Elements

/-! ## One file -/

section File

variable {Content : Type} {language : Option Language} {submissionFormat : List String}

theorem candidateElements_ok (filename : String) (hsuits : Suits language submissionFormat)
    (hnamed : StemsNamed submissionFormat) :
    ∃ elements, candidateElements filename language submissionFormat = .ok elements ∧
      elements.Nodup ∧ ∀ element, element ∈ elements ↔
        element ∈ submissionFormat ∧ NameMatches language filename element := by
  induction submissionFormat with
  | nil => exact ⟨[], rfl, List.nodup_nil, by simp⟩
  | cons element rest ih =>
      obtain ⟨found, hfound, hmatch⟩ := matchFilename_ok filename
        (hsuits element List.mem_cons_self) (hnamed element List.mem_cons_self)
      obtain ⟨others, hothers, hnodup, hmem⟩ := ih
        (fun other hother => hsuits other (List.mem_cons_of_mem element hother))
        (fun other hother => hnamed other (List.mem_cons_of_mem element hother))
      refine ⟨if found && !others.contains element then element :: others else others, ?_, ?_, ?_⟩
      · unfold candidateElements
        rw [hfound, hothers]
        rfl
      · split
        case isTrue hnew =>
          simp only [Bool.and_eq_true, Bool.not_eq_true', List.contains_eq_mem,
            decide_eq_false_iff_not] at hnew
          exact List.nodup_cons.2 ⟨hnew.2, hnodup⟩
        case isFalse => exact hnodup
      · intro other
        split
        case isTrue hnew =>
          have hthis : NameMatches language filename element :=
            hmatch.1 (Bool.and_eq_true_iff.1 hnew).1
          rw [List.mem_cons, List.mem_cons, hmem]
          constructor
          · rintro (rfl | ⟨hother, hname⟩)
            · exact ⟨Or.inl rfl, hthis⟩
            · exact ⟨Or.inr hother, hname⟩
          · rintro ⟨rfl | hother, hname⟩
            · exact Or.inl rfl
            · exact Or.inr ⟨hother, hname⟩
        case isFalse hold =>
          rw [hmem, List.mem_cons]
          constructor
          · rintro ⟨hother, hname⟩
            exact ⟨Or.inr hother, hname⟩
          · rintro ⟨rfl | hother, hname⟩
            · -- The element was found, so it is among the others.
              have hin : other ∈ others := by
                have hfound' := hmatch.2 hname
                simpa [hfound'] using hold
              exact (hmem other).1 hin
            · exact ⟨hother, hname⟩

/-- `_match_file` returns the only element that a file matches, if there is one. -/
theorem matchFile_cases (f : ReceivedFile Content) (hsuits : Suits language submissionFormat)
    (hnamed : StemsNamed submissionFormat) :
    (∃ element, matchFile f.codename f.filename language submissionFormat = .ok element ∧
        MatchesOnly language submissionFormat f element) ∨
      ∃ reason, matchFile f.codename f.filename language submissionFormat =
          .error (.invalidFiles reason) ∧
        ∀ element, ¬MatchesOnly language submissionFormat f element := by
  obtain ⟨codename, filename, content⟩ := f
  cases codename with
  | none =>
      cases filename with
      | none =>
          refine Or.inr ⟨.noName, rfl, fun element honly => ?_⟩
          obtain ⟨filename, hfilename, -⟩ := honly.is_match
          cases hfilename
      | some filename =>
          obtain ⟨elements, helements, hnodup, hmem⟩ :=
            candidateElements_ok filename hsuits hnamed
          have hmatches : ∀ element, Matches language ⟨none, some filename, content⟩ element ↔
              NameMatches language filename element := by
            intro element
            simp [Matches]
          simp only [matchFile, helements, ok_bind]
          split
          case h_1 _ element =>
            have honly : ∀ other, other ∈ submissionFormat ∧ NameMatches language filename other ↔
                other = element := fun other => by rw [← hmem, List.mem_singleton]
            have hthis := (honly element).2 rfl
            exact Or.inl ⟨element, rfl, hthis.1, (hmatches element).2 hthis.2,
              fun other hother hmatch => (honly other).1 ⟨hother, (hmatches other).1 hmatch⟩⟩
          case h_2 hmany =>
            refine Or.inr ⟨_, rfl, fun element honly => hmany element ?_⟩
            -- A list without repetitions that has this element only.
            refine List.perm_singleton.1 ((List.perm_ext_iff_of_nodup hnodup
              (List.nodup_singleton element)).2 fun other => ?_)
            rw [hmem, List.mem_singleton]
            constructor
            · rintro ⟨hother, hname⟩
              exact honly.unique other hother ((hmatches other).2 hname)
            · rintro rfl
              exact ⟨honly.mem, (hmatches other).1 honly.is_match⟩
  | some codename =>
      simp only [matchFile, List.contains_eq_mem, decide_eq_true_eq]
      split
      case isTrue hcodename =>
        obtain ⟨found, hfound, hext⟩ := matchExtension_ok filename
          (hsuits codename hcodename)
        rw [hfound, ok_bind]
        cases found with
        | true =>
            exact Or.inl ⟨codename, rfl, hcodename, ⟨rfl, hext.1 rfl⟩,
              fun other _ hmatch => hmatch.1.symm⟩
        | false =>
            refine Or.inr ⟨_, rfl, fun element honly => ?_⟩
            obtain ⟨rfl, hall⟩ := honly.is_match
            have htrue := hext.2 hall
            cases htrue
      case isFalse hcodename =>
        refine Or.inr ⟨_, rfl, fun element honly => ?_⟩
        obtain ⟨rfl, -⟩ := honly.is_match
        exact hcodename honly.mem

/-! ## All the files -/

theorem eq_of_matchesOnly {f : ReceivedFile Content} {element element' : String}
    (h : MatchesOnly language submissionFormat f element)
    (h' : MatchesOnly language submissionFormat f element') : element = element' :=
  h'.unique element h.mem h.is_match

theorem fits_concat {files : List (ReceivedFile Content)} {f : ReceivedFile Content} :
    Fits language submissionFormat (files ++ [f]) ↔ Fits language submissionFormat files ∧
      ∃ element, MatchesOnly language submissionFormat f element ∧
        ∀ g ∈ files, ¬MatchesOnly language submissionFormat g element := by
  constructor
  · intro h
    obtain ⟨element, honly⟩ := h.each f (by simp)
    have hapart := List.pairwise_append.1 h.apart
    exact ⟨⟨fun g hg => h.each g (by simp [hg]), hapart.1⟩, element, honly,
      fun g hg hother => hapart.2.2 g hg f (by simp) element hother honly⟩
  · rintro ⟨h, element, honly, hfree⟩
    refine ⟨fun g hg => ?_, List.pairwise_append.2 ⟨h.apart, List.pairwise_singleton _ _, ?_⟩⟩
    · rcases List.mem_append.1 hg with hg | hg
      · exact h.each g hg
      · rw [List.mem_singleton] at hg
        exact ⟨element, hg ▸ honly⟩
    · intro g hg f' hf' other hother honly'
      rw [List.mem_singleton] at hf'
      subst hf'
      exact hfree g hg (eq_of_matchesOnly honly honly' ▸ hother)

/-- The element of a file is taken exactly if another file matches it. -/
theorem Placed.isSome_iff {files : List (ReceivedFile Content)} {d : Dict String Content}
    (h : Placed language submissionFormat files d) {element : String} :
    (d.get? element).isSome = true ↔
      ∃ g ∈ files, MatchesOnly language submissionFormat g element := by
  rw [Option.isSome_iff_exists]
  constructor
  · rintro ⟨content, hget⟩
    obtain ⟨g, hg, honly, -⟩ := (h element content).1 hget
    exact ⟨g, hg, honly⟩
  · rintro ⟨g, hg, honly⟩
    exact ⟨g.content, (h element g.content).2 ⟨g, hg, honly, rfl⟩⟩

theorem Placed.concat {files : List (ReceivedFile Content)} {d : Dict String Content}
    (h : Placed language submissionFormat files d) {f : ReceivedFile Content} {element : String}
    (honly : MatchesOnly language submissionFormat f element)
    (hfree : ∀ g ∈ files, ¬MatchesOnly language submissionFormat g element) :
    Placed language submissionFormat (files ++ [f]) (d.set element f.content) := by
  intro other content
  rw [Dict.get?_set]
  split
  case isTrue hsame =>
    subst hsame
    rw [Option.some.injEq]
    constructor
    · intro hcontent
      exact ⟨f, by simp, honly, hcontent⟩
    · rintro ⟨g, hg, hother, hcontent⟩
      rcases List.mem_append.1 hg with hg | hg
      · exact absurd hother (hfree g hg)
      · rw [List.mem_singleton] at hg
        exact hg ▸ hcontent
  case isFalse hne =>
    rw [h other content]
    constructor
    · rintro ⟨g, hg, hother⟩
      exact ⟨g, by simp [hg], hother⟩
    · rintro ⟨g, hg, hother, hcontent⟩
      rcases List.mem_append.1 hg with hg | hg
      · exact ⟨g, hg, hother, hcontent⟩
      · rw [List.mem_singleton] at hg
        subst hg
        exact absurd (eq_of_matchesOnly hother honly) hne

/-- `_match_files` takes the files exactly if they fit, and says which file each element gets. -/
theorem matchFiles_cases (files : List (ReceivedFile Content))
    (hsuits : Suits language submissionFormat) (hnamed : StemsNamed submissionFormat) :
    (∃ d, matchFiles files language submissionFormat = .ok d ∧
        Fits language submissionFormat files ∧ Placed language submissionFormat files d) ∨
      ∃ reason, matchFiles files language submissionFormat = .error (.invalidFiles reason) ∧
        ¬Fits language submissionFormat files := by
  -- By induction on the files, the last one being placed after the others.
  induction files using List.reverseRecOn with
  | nil =>
      refine Or.inl ⟨Dict.empty, rfl, ⟨by simp, List.Pairwise.nil⟩, fun element content => ?_⟩
      simp [Dict.get?_empty]
  | append_singleton files f ih =>
      have hloop : matchFiles (files ++ [f]) language submissionFormat =
          matchFiles files language submissionFormat >>= fun d =>
            placeFile language submissionFormat d f := foldlM_concat
      rw [hloop, fits_concat]
      rcases ih with ⟨d, hd, hfits, hplaced⟩ | ⟨reason, herror, hnot⟩
      · rw [hd, ok_bind]
        unfold placeFile
        rcases matchFile_cases f hsuits hnamed with ⟨element, helement, honly⟩ | ⟨reason, hno, hnone⟩
        · rw [helement, ok_bind]
          by_cases htaken : (d.get? element).isSome = true
          · rw [if_pos htaken]
            obtain ⟨g, hg, hother⟩ := hplaced.isSome_iff.1 htaken
            refine Or.inr ⟨_, rfl, ?_⟩
            rintro ⟨-, element', honly', hfree⟩
            exact hfree g hg (eq_of_matchesOnly honly honly' ▸ hother)
          · rw [if_neg htaken]
            have hfree : ∀ g ∈ files, ¬MatchesOnly language submissionFormat g element :=
              fun g hg hother => htaken (hplaced.isSome_iff.2 ⟨g, hg, hother⟩)
            exact Or.inl ⟨_, rfl, ⟨hfits, element, honly, hfree⟩, hplaced.concat honly hfree⟩
        · rw [hno]
          refine Or.inr ⟨reason, rfl, ?_⟩
          rintro ⟨-, element, honly, -⟩
          exact hnone element honly
      · rw [herror]
        exact Or.inr ⟨reason, rfl, fun h => hnot h.1⟩

end File

/-! ## The candidate languages -/

section Languages

variable {Content : Type} {m : LanguageManager} {givenLanguageName : Option String}
variable {submissionFormat : List String} {allowedLanguageNames : Option (List String)}

theorem candidateLanguages_cases (m : LanguageManager) (givenLanguageName : Option String)
    (submissionFormat : List String) (allowedLanguageNames : Option (List String)) :
    (∃ candidates, candidateLanguages m givenLanguageName submissionFormat allowedLanguageNames =
        .ok candidates ∧ ∀ language, language ∈ candidates ↔
          Candidate m givenLanguageName submissionFormat allowedLanguageNames language) ∨
      ∃ reason, candidateLanguages m givenLanguageName submissionFormat allowedLanguageNames =
          .error (.invalidFilesOrLanguage reason) ∧ ∀ language,
            ¬Candidate m givenLanguageName submissionFormat allowedLanguageNames language := by
  unfold candidateLanguages Candidate
  by_cases htemplate : ∃ element ∈ submissionFormat, isTemplate element = true
  · have hany : submissionFormat.any isTemplate = true := List.any_eq_true.2 htemplate
    simp only [hany, if_pos htemplate, Bool.not_true, Bool.false_eq_true, if_false]
    cases givenLanguageName with
    | some name =>
        dsimp only
        cases hlanguage : m.getLanguage name with
        | none =>
            refine Or.inr ⟨_, rfl, ?_⟩
            rintro language ⟨l, -, hnone, -⟩
            cases hnone
        | some l =>
            cases allowedLanguageNames with
            | none =>
                refine Or.inl ⟨_, rfl, fun language => ?_⟩
                simp
            | some allowed =>
                dsimp only
                by_cases hallowed : l.name ∈ allowed
                · refine Or.inl ⟨[some l], by simp [hallowed], fun language => ?_⟩
                  rw [List.mem_singleton]
                  constructor
                  · rintro rfl
                    refine ⟨l, rfl, rfl, fun allowed' h => ?_⟩
                    rw [Option.some.injEq] at h
                    exact h ▸ hallowed
                  · rintro ⟨l', rfl, hl, -⟩
                    exact hl.symm
                · refine Or.inr ⟨.notAllowed name, by simp [hallowed], ?_⟩
                  rintro language ⟨l', -, hl, hnames⟩
                  rw [Option.some.injEq] at hl
                  exact hallowed (hl ▸ hnames allowed rfl)
    | none =>
        dsimp only
        cases allowedLanguageNames with
        | none =>
            refine Or.inl ⟨_, rfl, fun language => ?_⟩
            rw [List.mem_map]
            constructor
            · rintro ⟨l, hl, rfl⟩
              exact ⟨l, rfl, hl⟩
            · rintro ⟨l, rfl, hl⟩
              exact ⟨l, hl, rfl⟩
        | some allowed =>
            refine Or.inl ⟨_, rfl, fun language => ?_⟩
            simp only [List.mem_map, List.mem_filterMap]
            constructor
            · rintro ⟨l, hl, rfl⟩
              exact ⟨l, rfl, hl⟩
            · rintro ⟨l, rfl, hl⟩
              exact ⟨l, hl, rfl⟩
  · have hany : submissionFormat.any isTemplate = false := by
      rw [Bool.eq_false_iff, ne_eq, List.any_eq_true]
      exact htemplate
    simp only [hany, if_neg htemplate, Bool.not_false, if_true]
    cases givenLanguageName with
    | some name =>
        refine Or.inr ⟨_, rfl, ?_⟩
        rintro language ⟨hname, -⟩
        cases hname
    | none =>
        refine Or.inl ⟨_, rfl, fun language => ?_⟩
        simp

/-- A candidate is a language whenever one is needed. -/
theorem suits_of_candidate {language : Option Language}
    (h : Candidate m givenLanguageName submissionFormat allowedLanguageNames language) :
    Suits language submissionFormat := by
  intro element helement htemplate
  unfold Candidate at h
  rw [if_pos ⟨element, helement, htemplate⟩] at h
  obtain ⟨l, hl, -⟩ := h
  exact ⟨l, hl⟩

/-- After some candidates, what was matched is what they match. -/
def TriedAll (files : List (ReceivedFile Content)) (submissionFormat : List String)
    (languages : List (Option Language)) (tried : Tried Content) : Prop :=
  ∀ language d, tried.matched.get? language = some d ↔
    language ∈ languages ∧ matchFiles files language submissionFormat = .ok d

theorem tryLanguage_ok {files : List (ReceivedFile Content)} {languages : List (Option Language)}
    {tried : Tried Content} {language : Option Language}
    (h : TriedAll files submissionFormat languages tried)
    (hsuits : Suits language submissionFormat) (hnamed : StemsNamed submissionFormat) :
    ∃ tried', tryLanguage files submissionFormat tried language = .ok tried' ∧
      TriedAll files submissionFormat (languages ++ [language]) tried' := by
  unfold tryLanguage
  rcases matchFiles_cases files hsuits hnamed with ⟨d, hd, -⟩ | ⟨reason, herror, -⟩
  · rw [hd]
    refine ⟨_, rfl, fun other d' => ?_⟩
    dsimp only
    rw [Dict.get?_set]
    split
    case isTrue hsame =>
      subst hsame
      rw [hd, Option.some.injEq, Except.ok.injEq]
      simp
    case isFalse hne =>
      rw [h other d']
      simp [hne]
  · rw [herror]
    refine ⟨_, rfl, fun other d' => ?_⟩
    dsimp only
    rw [h other d']
    constructor
    · rintro ⟨hother, hd⟩
      exact ⟨by simp [hother], hd⟩
    · rintro ⟨hother, hd⟩
      rcases List.mem_append.1 hother with hother | hother
      · exact ⟨hother, hd⟩
      · rw [List.mem_singleton] at hother
        rw [hother, herror] at hd
        cases hd

theorem tryLanguages_ok (files : List (ReceivedFile Content)) {languages : List (Option Language)}
    (hsuits : ∀ language ∈ languages, Suits language submissionFormat)
    (hnamed : StemsNamed submissionFormat) :
    ∃ tried, languages.foldlM (tryLanguage files submissionFormat) ⟨Dict.empty, []⟩ = .ok tried ∧
      TriedAll files submissionFormat languages tried := by
  refine foldlM_ok_of_forall (P := TriedAll files submissionFormat) ?_ ?_
  · intro language d
    simp [Dict.get?_empty]
  · intro done language tried hinit htried
    exact tryLanguage_ok htried (hsuits language (hinit.subset (by simp))) hnamed

/-- The language of the result is the only candidate that all the files fit. -/
theorem matchFilesAndLanguage_cases (m : LanguageManager) (order : SetOrder (Option Language))
    (files : List (ReceivedFile Content)) (givenLanguageName : Option String)
    (allowedLanguageNames : Option (List String)) (hnamed : StemsNamed submissionFormat) :
    (∃ d language, matchFilesAndLanguage m order files givenLanguageName submissionFormat
          allowedLanguageNames = .ok (d, language) ∧ files ≠ [] ∧
        OnlyLanguage m files givenLanguageName submissionFormat allowedLanguageNames language ∧
          Placed language submissionFormat files d) ∨
      ∃ reason, matchFilesAndLanguage m order files givenLanguageName submissionFormat
          allowedLanguageNames = .error (.invalidFilesOrLanguage reason) ∧ (files ≠ [] →
        ∀ language,
          ¬OnlyLanguage m files givenLanguageName submissionFormat allowedLanguageNames language) := by
  unfold matchFilesAndLanguage
  cases files with
  | nil => exact Or.inr ⟨.noFiles, rfl, fun h => absurd rfl h⟩
  | cons f rest =>
      generalize hfiles : f :: rest = files
      have hne : files ≠ [] := hfiles ▸ List.cons_ne_nil f rest
      have hnotEmpty : files.isEmpty = false := List.isEmpty_eq_false_iff.2 hne
      rw [hnotEmpty]
      simp only [Bool.false_eq_true, if_false]
      rcases candidateLanguages_cases m givenLanguageName submissionFormat allowedLanguageNames with
        ⟨candidates, hcandidates, hmem⟩ | ⟨reason, herror, hnone⟩
      · rw [hcandidates, ok_bind]
        have hiterate : ∀ language, language ∈ order.iterate candidates ↔
            Candidate m givenLanguageName submissionFormat allowedLanguageNames language := by
          intro language
          rw [(order.perm candidates).mem_iff, List.mem_dedup, hmem]
        obtain ⟨tried, htried, hall⟩ := tryLanguages_ok files
          (fun language (h : language ∈ order.iterate candidates) =>
            suits_of_candidate ((hiterate language).1 h)) hnamed
        rw [htried, ok_bind]
        -- A candidate was matched exactly if the files fit it.
        have hfits : ∀ language, Candidate m givenLanguageName submissionFormat
            allowedLanguageNames language → Fits language submissionFormat files →
              ∃ d, (language, d) ∈ tried.matched.items := by
          intro language hcandidate hfit
          rcases matchFiles_cases files (suits_of_candidate hcandidate) hnamed with
            ⟨d, hd, -⟩ | ⟨reason, -, hnot⟩
          · exact ⟨d, Dict.mem_items_iff.2
              ((hall language d).2 ⟨(hiterate language).2 hcandidate, hd⟩)⟩
          · exact absurd hfit hnot
        have hmatched : ∀ language d, (language, d) ∈ tried.matched.items →
            Candidate m givenLanguageName submissionFormat allowedLanguageNames language ∧
              Fits language submissionFormat files ∧
                Placed language submissionFormat files d := by
          intro language d hitem
          obtain ⟨hlanguage, hd⟩ := (hall language d).1 (Dict.mem_items_iff.1 hitem)
          have hcandidate := (hiterate language).1 hlanguage
          rcases matchFiles_cases files (suits_of_candidate hcandidate) hnamed with
            ⟨d', hd', hfit, hplaced⟩ | ⟨reason, herror, -⟩
          · rw [hd, Except.ok.injEq] at hd'
            subst hd'
            exact ⟨hcandidate, hfit, hplaced⟩
          · rw [hd] at herror
            cases herror
        have hdistinct := tried.matched.distinct
        cases hitems : tried.matched.items with
        | nil =>
            refine Or.inr ⟨_, rfl, fun _ language honly => ?_⟩
            obtain ⟨d, hd⟩ := hfits language honly.candidate honly.fits
            rw [hitems] at hd
            cases hd
        | cons item items =>
            obtain ⟨language, d⟩ := item
            obtain ⟨hcandidate, hfit, hplaced⟩ := hmatched language d (hitems ▸ List.mem_cons_self)
            cases items with
            | nil =>
                refine Or.inl ⟨d, language, rfl, hne, ⟨hcandidate, hfit, ?_⟩, hplaced⟩
                intro other hother hfit'
                obtain ⟨d', hd'⟩ := hfits other hother hfit'
                rw [hitems, List.mem_singleton, Prod.mk.injEq] at hd'
                exact hd'.1
            | cons item' items =>
                -- Two languages match, so none is the only one.
                obtain ⟨language', d'⟩ := item'
                refine Or.inr ⟨_, rfl, fun _ only honly => ?_⟩
                obtain ⟨hcandidate', hfit', -⟩ := hmatched language' d' (hitems ▸ by simp)
                have hsame : language = language' :=
                  (honly.unique language hcandidate hfit).trans
                    (honly.unique language' hcandidate' hfit').symm
                rw [hitems] at hdistinct
                simp [hsame] at hdistinct
      · rw [herror]
        exact Or.inr ⟨reason, rfl, fun _ language honly => hnone language honly.candidate⟩

/-! ## The order of the files and of the languages -/

section Perm

variable {files files' : List (ReceivedFile Content)} {submissionFormat' : List String}
variable {language : Option Language}

theorem matchesOnly_perm (hformat : submissionFormat.Perm submissionFormat')
    {f : ReceivedFile Content} {element : String} :
    MatchesOnly language submissionFormat f element ↔
      MatchesOnly language submissionFormat' f element := by
  constructor
  · intro h
    exact ⟨hformat.mem_iff.1 h.mem, h.is_match,
      fun other hother => h.unique other (hformat.mem_iff.2 hother)⟩
  · intro h
    exact ⟨hformat.mem_iff.2 h.mem, h.is_match,
      fun other hother => h.unique other (hformat.mem_iff.1 hother)⟩

theorem fits_perm (hfiles : files.Perm files') (hformat : submissionFormat.Perm submissionFormat')
    (h : Fits language submissionFormat files) : Fits language submissionFormat' files' := by
  refine ⟨fun f hf => ?_, (hfiles.pairwise_iff ?_).1 (h.apart.imp ?_)⟩
  · obtain ⟨element, honly⟩ := h.each f (hfiles.mem_iff.2 hf)
    exact ⟨element, (matchesOnly_perm hformat).1 honly⟩
  · intro f g hapart element hg hf
    exact hapart element hf hg
  · intro f g hapart element hf hg
    exact hapart element ((matchesOnly_perm hformat).2 hf) ((matchesOnly_perm hformat).2 hg)

theorem placed_perm (hfiles : files.Perm files') (hformat : submissionFormat.Perm submissionFormat')
    {d : Dict String Content} (h : Placed language submissionFormat files d) :
    Placed language submissionFormat' files' d := by
  intro element content
  simp only [h element content, hfiles.mem_iff, matchesOnly_perm hformat]

theorem candidate_perm (hformat : submissionFormat.Perm submissionFormat')
    {allowed allowed' : Option (List String)} (hallowed : Option.Rel List.Perm allowed allowed') :
    Candidate m givenLanguageName submissionFormat allowed language ↔
      Candidate m givenLanguageName submissionFormat' allowed' language := by
  unfold Candidate
  simp only [hformat.mem_iff]
  cases hallowed with
  | none => rfl
  | some hperm => simp [hperm.mem_iff]

theorem onlyLanguage_perm (hfiles : files.Perm files')
    (hformat : submissionFormat.Perm submissionFormat') {allowed allowed' : Option (List String)}
    (hallowed : Option.Rel List.Perm allowed allowed')
    (h : OnlyLanguage m files givenLanguageName submissionFormat allowed language) :
    OnlyLanguage m files' givenLanguageName submissionFormat' allowed' language :=
  ⟨(candidate_perm hformat hallowed).1 h.candidate, fits_perm hfiles hformat h.fits,
    fun other hother hfit => h.unique other ((candidate_perm hformat hallowed).2 hother)
      (fits_perm hfiles.symm hformat.symm hfit)⟩

end Perm

end Languages

/-- Two requests end alike: with the same files and language, or both with
`InvalidFilesOrLanguage`. -/
def SameOutcome {Content : Type} :
    Except Exc (Dict String Content × Option Language) →
      Except Exc (Dict String Content × Option Language) → Prop
  | .ok (d, language), .ok (d', language') =>
      language = language' ∧ ∀ element, d.get? element = d'.get? element
  | .error (.invalidFilesOrLanguage _), .error (.invalidFilesOrLanguage _) => True
  | _, _ => False

/-- What a request means decides its result: files and a language are returned exactly if there are
files and the language is the only candidate that they fit, and the contents then go to the elements
that the files match.  Otherwise `InvalidFilesOrLanguage` is raised.  The orders of the files, of the
allowed languages and of the sets make no difference. -/
theorem files_matched_iff {Content : Type} (m : LanguageManager)
    (order : SetOrder (Option Language)) (files : List (ReceivedFile Content))
    (givenLanguageName : Option String) (submissionFormat : List String)
    (allowed : Option (List String)) (hnamed : StemsNamed submissionFormat) :
    (∀ language, (∃ d, matchFilesAndLanguage m order files givenLanguageName submissionFormat
          allowed = .ok (d, language)) ↔
        files ≠ [] ∧ OnlyLanguage m files givenLanguageName submissionFormat allowed language) ∧
      (∀ d language, matchFilesAndLanguage m order files givenLanguageName submissionFormat
          allowed = .ok (d, language) → Placed language submissionFormat files d) ∧
      (∀ e, matchFilesAndLanguage m order files givenLanguageName submissionFormat
          allowed = .error e → ∃ reason, e = .invalidFilesOrLanguage reason) ∧
      ∀ (order' : SetOrder (Option Language)) (files' : List (ReceivedFile Content))
        (submissionFormat' : List String) (allowed' : Option (List String)),
        files.Perm files' → submissionFormat.Perm submissionFormat' →
          Option.Rel List.Perm allowed allowed' →
            SameOutcome
              (matchFilesAndLanguage m order files givenLanguageName submissionFormat allowed)
              (matchFilesAndLanguage m order' files' givenLanguageName submissionFormat' allowed') := by
  have hcases := matchFilesAndLanguage_cases m order files givenLanguageName allowed hnamed
  refine ⟨fun language => ?_, fun d language hok => ?_, fun e herror => ?_, ?_⟩
  · rcases hcases with ⟨d, only, hok, hne, honly, -⟩ | ⟨reason, herror, hnone⟩
    · rw [hok]
      constructor
      · rintro ⟨d', hd'⟩
        rw [Except.ok.injEq, Prod.mk.injEq] at hd'
        exact ⟨hne, hd'.2 ▸ honly⟩
      · rintro ⟨-, honly'⟩
        have hsame : only = language :=
          honly'.unique only honly.candidate honly.fits
        exact ⟨d, by rw [hsame]⟩
    · rw [herror]
      constructor
      · rintro ⟨d, hd⟩
        cases hd
      · rintro ⟨hne, honly⟩
        exact absurd honly (hnone hne language)
  · rcases hcases with ⟨d', only, hok', -, -, hplaced⟩ | ⟨reason, herror, -⟩
    · rw [hok', Except.ok.injEq, Prod.mk.injEq] at hok
      exact hok.1 ▸ hok.2 ▸ hplaced
    · rw [herror] at hok
      cases hok
  · rcases hcases with ⟨d, only, hok, -⟩ | ⟨reason, herror', -⟩
    · rw [hok] at herror
      cases herror
    · rw [herror', Except.error.injEq] at herror
      exact ⟨reason, herror.symm⟩
  · intro order' files' submissionFormat' allowed' hfiles hformat hallowed
    have hnamed' : StemsNamed submissionFormat' := fun element helement =>
      hnamed element (hformat.mem_iff.2 helement)
    have hcases' := matchFilesAndLanguage_cases m order' files' givenLanguageName allowed' hnamed'
    have hempty : files ≠ [] ↔ files' ≠ [] := not_congr
      ⟨fun h => (h ▸ hfiles).nil_eq.symm, fun h => (h ▸ hfiles).eq_nil⟩
    rcases hcases with ⟨d, language, hok, hne, honly, hplaced⟩ | ⟨reason, herror, hnone⟩
    · have honly' := onlyLanguage_perm hfiles hformat hallowed honly
      rcases hcases' with ⟨d', language', hok', -, honly'', hplaced'⟩ | ⟨reason, -, hnone'⟩
      · rw [hok, hok']
        have hsame : language = language' :=
          honly''.unique language honly'.candidate honly'.fits
        subst hsame
        refine ⟨rfl, fun element => Option.ext fun content => ?_⟩
        rw [placed_perm hfiles hformat hplaced element content, hplaced' element content]
      · exact absurd honly' (hnone' (hempty.1 hne) language)
    · rcases hcases' with ⟨d', language', -, hne', honly', -⟩ | ⟨reason', herror', -⟩
      · have hallowed' : Option.Rel List.Perm allowed' allowed := by
          cases hallowed with
          | none => exact .none
          | some hperm => exact .some hperm.symm
        exact absurd (onlyLanguage_perm hfiles.symm hformat.symm hallowed' honly')
          (hnone (hempty.2 hne') language')
      · rw [herror, herror']
        trivial

/-! ### Two languages -/

def langC : Language := ⟨"C11_gcc", "C11 / gcc", [".c"]⟩

def langCpp : Language := ⟨"Cpp20Gpp", "C++20 / g++", [".cpp", ".cc"]⟩

def twoLanguages : LanguageManager := ⟨[langC, langCpp], by decide⟩

/-- Without repetitions, in the order given. -/
def givenOrder : SetOrder (Option Language) := ⟨List.dedup, fun _ => List.Perm.refl _⟩

/-- A file that says which element it is for, and one that its name tells. -/
def encoderAndDecoder : List (ReceivedFile ℕ) :=
  [⟨some "encoder.%l", none, 1⟩, ⟨none, some "decoder.cc", 2⟩]

theorem files_matched_encoderAndDecoder :
    OnlyLanguage twoLanguages encoderAndDecoder none ["encoder.%l", "decoder.%l"] none
        (some langCpp) ∧
      ∃ d, matchFilesAndLanguage twoLanguages givenOrder encoderAndDecoder.reverse none
          ["encoder.%l", "decoder.%l"] none = .ok (d, some langCpp) ∧
        d.get? "encoder.%l" = some 1 ∧ d.get? "decoder.%l" = some 2 := by
  have hnamed : StemsNamed ["encoder.%l", "decoder.%l"] := by
    intro element helement stem hstem
    rw [List.mem_cons, List.mem_singleton] at helement
    rcases helement with rfl | rfl
    · have : "encoder" = stem := (String.append_left_inj ".%l").1 hstem
      exact this ▸ by decide
    · have : "decoder" = stem := (String.append_left_inj ".%l").1 hstem
      exact this ▸ by decide
  have hmatched := files_matched_iff twoLanguages givenOrder encoderAndDecoder none
    ["encoder.%l", "decoder.%l"] none hnamed
  have hresult : ∃ d, matchFilesAndLanguage twoLanguages givenOrder encoderAndDecoder none
      ["encoder.%l", "decoder.%l"] none = .ok (d, some langCpp) := ⟨_, rfl⟩
  exact ⟨((hmatched.1 _).1 hresult).2, _, rfl, rfl, rfl⟩

/-- No files fit a format without languages, and yet they are refused; and with dots only before
`.%l` an element is not matched by the file that has the extension in its place. -/
theorem matching_refuses_fitting_files :
    (OnlyLanguage twoLanguages ([] : List (ReceivedFile ℕ)) none ["output.txt"] none none ∧
        matchFilesAndLanguage twoLanguages givenOrder ([] : List (ReceivedFile ℕ)) none
          ["output.txt"] none = .error (.invalidFilesOrLanguage .noFiles)) ∧
      OnlyLanguage twoLanguages [(⟨none, some "..c", 1⟩ : ReceivedFile ℕ)] none ["..%l"] none
          (some langC) ∧
        ∃ reasons, matchFilesAndLanguage twoLanguages givenOrder
          [(⟨none, some "..c", 1⟩ : ReceivedFile ℕ)] none ["..%l"] none =
            .error (.invalidFilesOrLanguage (.noLanguage reasons)) := by
  have hname : NameMatches (some langC) "..c" "..%l" :=
    @NameMatches.template _ _ "." ".c" langC rfl (by decide) rfl
  have honly : MatchesOnly (some langC) ["..%l"] (⟨none, some "..c", 1⟩ : ReceivedFile ℕ) "..%l" :=
    ⟨by simp, ⟨"..c", rfl, hname⟩, fun other hother _ => List.mem_singleton.1 hother⟩
  -- The file has no extension of the other language.
  have hcpp : ¬NameMatches (some langCpp) "..c" "..%l" := by
    intro hmatch
    have hext := (@nameMatches_template_iff _ langCpp ".").1 hmatch
    revert hext
    decide
  refine ⟨⟨⟨?_, ⟨by simp, .nil⟩, ?_⟩, rfl⟩,
    ⟨?_, ⟨?_, List.pairwise_singleton _ _⟩, ?_⟩, _, rfl⟩
  · rw [Candidate, if_neg (by decide)]
    exact ⟨rfl, rfl⟩
  · intro other hother _
    rw [Candidate, if_neg (by decide)] at hother
    exact hother.2
  · rw [Candidate, if_pos (by decide)]
    exact ⟨langC, rfl, by decide⟩
  · intro f hf
    rw [List.mem_singleton] at hf
    exact ⟨_, hf ▸ honly⟩
  · intro other hother hfits
    rw [Candidate, if_pos (by decide)] at hother
    obtain ⟨l, rfl, hl⟩ := hother
    obtain ⟨element, hmatch⟩ := hfits.each _ List.mem_cons_self
    have helement := List.mem_singleton.1 hmatch.mem
    subst helement
    obtain ⟨filename, hfilename, hmatches⟩ := hmatch.is_match
    rw [Option.some.injEq] at hfilename
    subst hfilename
    have hmem : l = langC ∨ l = langCpp := by simpa [twoLanguages] using hl
    rcases hmem with rfl | rfl
    · rfl
    · exact absurd hmatches hcpp

end FileMatching
end Server
end ContestManagement
