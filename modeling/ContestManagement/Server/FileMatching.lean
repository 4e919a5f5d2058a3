import Mathlib.Data.List.Dedup
import ContestManagement.Lib.Dict
import ContestManagement.Lib.Filenames
import ContestManagement.Lib.Python

/-!
# Matching the files of a submission

`match_files_and_language` of `cms/server/contest/submission/file_matching.py` finds out which
element of the submission format each received file is for, and in which language they are.  The
elements that end in `.%l` stand for a file with an extension of the language.

The files are matched in each candidate language, and exactly one of these has to match them all.
-/

namespace ContestManagement
namespace Server
namespace FileMatching

open Lib
open Lib.Filenames

/-- A language; two are equal if they are of the same class. -/
structure Language where
  cls : String
  name : String
  sourceExtensions : List String
  deriving DecidableEq

/-- `LANGUAGES`, with one language of each class. -/
structure LanguageManager where
  languages : List Language
  distinct : (languages.map Language.cls).Nodup

/-- `get_language`: of several languages with a name, the one that was loaded last. -/
def LanguageManager.getLanguage (m : LanguageManager) (name : String) : Option Language :=
  m.languages.reverse.find? fun language => language.name = name

structure ReceivedFile (Content : Type) where
  codename : Option String
  filename : Option String
  content : Content

/-- What `InvalidFiles` says. -/
inductive InvalidFiles
  /-- "need at least one of codename and filename" -/
  | noName
  /-- "file %r/%r doesn't unambiguously match the submission format %r" -/
  | ambiguous (codename filename : Option String)
  /-- "two files match the same element %r of the submission format" -/
  | twice (element : String)
  deriving DecidableEq

/-- What `InvalidFilesOrLanguage` says. -/
inductive Invalidity
  /-- "no files given" -/
  | noFiles
  /-- "a language %r is given when not needed" -/
  | notNeeded (name : String)
  /-- "the given language %r isn't a language" -/
  | notALanguage (name : String)
  /-- "the given language %r isn't allowed" -/
  | notAllowed (name : String)
  /-- "there isn't any language that matches all the files:", with the reasons -/
  | noLanguage (reasons : List (Option String × InvalidFiles))
  /-- "there is more than one language that matches all the files: %r" -/
  | manyLanguages (languages : List (Option Language))
  deriving DecidableEq

inductive Exc
  | invalidFiles (reason : InvalidFiles)
  | valueError (message : String)
  | invalidFilesOrLanguage (reason : Invalidity)
  deriving DecidableEq

/-- `element.endswith(".%l")`. -/
def isTemplate (element : String) : Bool := endsWith element ".%l"

def languageNotGiven : Exc :=
  .valueError "language not given but submission format requires it"

/-- `_match_filename`. -/
def matchFilename (filename : String) (language : Option Language) (element : String) :
    Except Exc Bool :=
  if !isTemplate element then .ok (filename = element)
  else
    match language with
    | none => .error languageNotGiven
    | some language =>
        let base := splitextRoot element
        .ok (language.sourceExtensions.any fun ext => filename = base ++ ext)

/-- `_match_extension`. -/
def matchExtension (filename : Option String) (language : Option Language) (element : String) :
    Except Exc Bool :=
  match filename with
  | none => .ok true
  | some filename =>
      if !isTemplate element then .ok true
      else
        match language with
        | none => .error languageNotGiven
        | some language => .ok (language.sourceExtensions.any fun ext => endsWith filename ext)

/-- The set of the elements that a filename matches. -/
def candidateElements (filename : String) (language : Option Language) :
    List String → Except Exc (List String)
  | [] => .ok []
  | element :: rest => do
      let found ← matchFilename filename language element
      let others ← candidateElements filename language rest
      return if found && !others.contains element then element :: others else others

/-- `_match_file`; the submission format is a set, given by its elements. -/
def matchFile (codename filename : Option String) (language : Option Language)
    (submissionFormat : List String) : Except Exc String :=
  match codename, filename with
  | none, none => .error (.invalidFiles .noName)
  | none, some filename => do
      let elements ← candidateElements filename language submissionFormat
      match elements with
      | [element] => .ok element
      | _ => .error (.invalidFiles (.ambiguous none (some filename)))
  | some codename, filename =>
      if submissionFormat.contains codename then do
        let found ← matchExtension filename language codename
        if found then .ok codename
        else .error (.invalidFiles (.ambiguous (some codename) filename))
      else .error (.invalidFiles (.ambiguous (some codename) filename))

section Files

variable {Content : Type}

/-- What `_match_files` does with one file. -/
def placeFile (language : Option Language) (submissionFormat : List String)
    (files : Dict String Content) (f : ReceivedFile Content) : Except Exc (Dict String Content) := do
  let element ← matchFile f.codename f.filename language submissionFormat
  if (files.get? element).isSome then .error (.invalidFiles (.twice element))
  else .ok (files.set element f.content)

/-- `_match_files`. -/
def matchFiles (givenFiles : List (ReceivedFile Content)) (language : Option Language)
    (submissionFormat : List String) : Except Exc (Dict String Content) :=
  givenFiles.foldlM (placeFile language submissionFormat) Dict.empty

/-- The languages that the files may be in. -/
def candidateLanguages (m : LanguageManager) (givenLanguageName : Option String)
    (submissionFormat : List String) (allowedLanguageNames : Option (List String)) :
    Except Exc (List (Option Language)) :=
  if !submissionFormat.any isTemplate then
    match givenLanguageName with
    | some name => .error (.invalidFilesOrLanguage (.notNeeded name))
    | none => .ok [none]
  else
    match givenLanguageName with
    | some name =>
        match m.getLanguage name with
        | none => .error (.invalidFilesOrLanguage (.notALanguage name))
        | some language =>
            match allowedLanguageNames with
            | none => .ok [some language]
            | some allowed =>
                if allowed.contains language.name then .ok [some language]
                else .error (.invalidFilesOrLanguage (.notAllowed name))
    | none =>
        match allowedLanguageNames with
        | none => .ok (m.languages.map some)
        | some allowed => .ok ((allowed.filterMap m.getLanguage).map some)

/-- The languages that match the files, with what they match, and the reasons of the others. -/
structure Tried (Content : Type) where
  matched : Dict (Option Language) (Dict String Content)
  reasons : List (Option String × InvalidFiles)

/-- Try one candidate language. -/
def tryLanguage (givenFiles : List (ReceivedFile Content)) (submissionFormat : List String)
    (tried : Tried Content) (language : Option Language) : Except Exc (Tried Content) :=
  match matchFiles givenFiles language submissionFormat with
  | .ok files => .ok { tried with matched := tried.matched.set language files }
  | .error (.invalidFiles reason) =>
      .ok { tried with reasons := tried.reasons ++ [(language.map Language.name, reason)] }
  | .error e => .error e

/-- The order in which a set is gone through. -/
structure SetOrder (α : Type) [DecidableEq α] where
  iterate : List α → List α
  perm : ∀ values, (iterate values).Perm values.dedup

/-- `match_files_and_language`. -/
def matchFilesAndLanguage (m : LanguageManager) (order : SetOrder (Option Language))
    (givenFiles : List (ReceivedFile Content)) (givenLanguageName : Option String)
    (submissionFormat : List String) (allowedLanguageNames : Option (List String)) :
    Except Exc (Dict String Content × Option Language) :=
  if givenFiles.isEmpty then .error (.invalidFilesOrLanguage .noFiles)
  else do
    let candidates ← candidateLanguages m givenLanguageName submissionFormat allowedLanguageNames
    let tried ← (order.iterate candidates).foldlM (tryLanguage givenFiles submissionFormat)
      ⟨Dict.empty, []⟩
    match tried.matched.items with
    | [] => .error (.invalidFilesOrLanguage (.noLanguage tried.reasons))
    | [(language, files)] => .ok (files, language)
    | items => .error (.invalidFilesOrLanguage (.manyLanguages (items.map Prod.fst)))

end Files

/-! ## What a match is -/

section Meaning

variable {Content : Type}

/-- A filename is the one of an element, with an extension of the language for `.%l`. -/
inductive NameMatches (language : Option Language) (filename : String) : String → Prop
  | plain (h : isTemplate filename = false) : NameMatches language filename filename
  | template {stem ext : String} {l : Language} (hl : language = some l)
      (hext : ext ∈ l.sourceExtensions) (hfilename : filename = stem ++ ext) :
      NameMatches language filename (stem ++ ".%l")

/-- A filename ends in an extension of the language, if the element has one. -/
def ExtensionMatches (language : Option Language) (filename element : String) : Prop :=
  isTemplate element = true →
    ∃ l, language = some l ∧ ∃ ext ∈ l.sourceExtensions, ∃ stem, filename = stem ++ ext

/-- A received file matches an element: it gives the element as its codename, and its filename, if
any, agrees with it; or it gives no codename and has the filename of the element. -/
def Matches (language : Option Language) (f : ReceivedFile Content) (element : String) : Prop :=
  match f.codename with
  | some codename => codename = element ∧
      ∀ filename, f.filename = some filename → ExtensionMatches language filename element
  | none => ∃ filename, f.filename = some filename ∧ NameMatches language filename element

/-- A received file matches this element of the format and no other one. -/
structure MatchesOnly (language : Option Language) (submissionFormat : List String)
    (f : ReceivedFile Content) (element : String) : Prop where
  mem : element ∈ submissionFormat
  is_match : Matches language f element
  unique : ∀ other ∈ submissionFormat, Matches language f other → other = element

/-- Every file matches exactly one element, and no two the same one. -/
structure Fits (language : Option Language) (submissionFormat : List String)
    (files : List (ReceivedFile Content)) : Prop where
  each : ∀ f ∈ files, ∃ element, MatchesOnly language submissionFormat f element
  apart : files.Pairwise fun f g => ∀ element, MatchesOnly language submissionFormat f element →
    ¬MatchesOnly language submissionFormat g element

/-- The contents of the files, by the element that each matches. -/
def Placed (language : Option Language) (submissionFormat : List String)
    (files : List (ReceivedFile Content)) (d : Dict String Content) : Prop :=
  ∀ element content, d.get? element = some content ↔
    ∃ f ∈ files, MatchesOnly language submissionFormat f element ∧ f.content = content

/-- The languages that a request may mean. -/
def Candidate (m : LanguageManager) (givenLanguageName : Option String)
    (submissionFormat : List String) (allowedLanguageNames : Option (List String))
    (language : Option Language) : Prop :=
  if ∃ element ∈ submissionFormat, isTemplate element = true then
    ∃ l, language = some l ∧
      match givenLanguageName with
      | some name => m.getLanguage name = some l ∧
          ∀ allowed, allowedLanguageNames = some allowed → l.name ∈ allowed
      | none =>
          match allowedLanguageNames with
          | none => l ∈ m.languages
          | some allowed => ∃ name ∈ allowed, m.getLanguage name = some l
  else givenLanguageName = none ∧ language = none

/-- The only candidate language that all the files fit. -/
structure OnlyLanguage (m : LanguageManager) (givenFiles : List (ReceivedFile Content))
    (givenLanguageName : Option String) (submissionFormat : List String)
    (allowedLanguageNames : Option (List String)) (language : Option Language) : Prop where
  candidate : Candidate m givenLanguageName submissionFormat allowedLanguageNames language
  fits : Fits language submissionFormat givenFiles
  unique : ∀ other, Candidate m givenLanguageName submissionFormat allowedLanguageNames other →
    Fits other submissionFormat givenFiles → other = language

/-- Something other than dots stands before every `.%l`. -/
def StemsNamed (submissionFormat : List String) : Prop :=
  ∀ element ∈ submissionFormat, ∀ stem, element = stem ++ ".%l" → Named stem

end Meaning

end FileMatching
end Server
end ContestManagement
