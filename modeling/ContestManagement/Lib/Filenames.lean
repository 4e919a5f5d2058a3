import Mathlib.Data.List.TakeDrop
import Mathlib.Data.List.TakeWhile

/-!
# The extension of a path

`os.path.splitext` cuts a path at its last dot.  Dots at the start of the last component do not
begin an extension, so that the path is left whole if nothing else stands before its last dot.
-/

namespace ContestManagement
namespace Lib
namespace Filenames

def endsWith (s suffix : String) : Bool := suffix.toList.isSuffixOf s.toList

theorem endsWith_iff {s suffix : String} :
    endsWith s suffix = true ↔ ∃ base, s = base ++ suffix := by
  unfold endsWith
  rw [List.isSuffixOf_iff_suffix]
  constructor
  · rintro ⟨base, hbase⟩
    refine ⟨String.ofList base, String.toList_inj.1 ?_⟩
    rw [String.toList_append, String.toList_ofList, hbase]
  · rintro ⟨base, rfl⟩
    exact ⟨base.toList, String.toList_append.symm⟩

/-- The last place of a character, -1 if there is none. -/
def rfind (p : List Char) (c : Char) : ℤ :=
  p.length - 1 - (p.reverse.takeWhile (· ≠ c)).length

/-- The part of a path before its extension. -/
def root (p : List Char) : List Char :=
  let sepIndex := rfind p '/'
  let dotIndex := rfind p '.'
  if sepIndex < dotIndex ∧
      ((p.take dotIndex.toNat).drop (sepIndex + 1).toNat).any (· ≠ '.') = true then
    p.take dotIndex.toNat
  else p

/-- `os.path.splitext(path)[0]`. -/
def splitextRoot (path : String) : String := String.ofList (root path.toList)

/-- The last component of a path, to which leading dots are counted. -/
def lastComponent (p : List Char) : List Char := (p.reverse.takeWhile (· ≠ '/')).reverse

/-- The last component is not made of dots only. -/
def Named (stem : String) : Prop := ∃ c ∈ lastComponent stem.toList, c ≠ '.'

instance (stem : String) : Decidable (Named stem) :=
  List.decidableBEx (fun c => c ≠ '.') (lastComponent stem.toList)

/-- A part at the end that a character is not in is passed over. -/
theorem rfind_append {p suffix : List Char} {c : Char} (h : c ∉ suffix) :
    rfind (p ++ suffix) c = rfind p c := by
  have hall : ∀ d ∈ suffix.reverse, (d ≠ c : Bool) = true := by
    intro d hd
    rw [List.mem_reverse] at hd
    simpa using fun heq : d = c => h (heq ▸ hd)
  unfold rfind
  rw [List.reverse_append, List.takeWhile_append_of_pos hall, List.length_append,
    List.length_append, List.length_reverse]
  omega

theorem rfind_concat (p : List Char) (c : Char) : rfind (p ++ [c]) c = p.length := by
  unfold rfind
  simp

theorem drop_lastComponent (p : List Char) :
    p.drop (rfind p '/' + 1).toNat = lastComponent p := by
  unfold rfind lastComponent
  have hle : (p.reverse.takeWhile (· ≠ '/')).length ≤ p.length := by
    have := (List.takeWhile_prefix (· ≠ '/') (l := p.reverse)).length_le
    rwa [List.length_reverse] at this
  have hindex : ((p.length : ℤ) - 1 - (p.reverse.takeWhile (· ≠ '/')).length + 1).toNat =
      p.length - (p.reverse.takeWhile (· ≠ '/')).length := by omega
  rw [hindex]
  have htake := List.prefix_iff_eq_take.1 (List.takeWhile_prefix (· ≠ '/') (l := p.reverse))
  rw [List.take_reverse] at htake
  rw [← List.reverse_reverse (p.drop _), ← htake]

/-- A path with an extension is cut before it. -/
theorem root_append {p ext : List Char} (hdot : '.' ∉ ext) (hsep : '/' ∉ ext)
    (hnamed : ∃ c ∈ lastComponent p, c ≠ '.') : root (p ++ '.' :: ext) = p := by
  have hpath : p ++ '.' :: ext = (p ++ ['.']) ++ ext := by simp
  have hdotIndex : rfind (p ++ '.' :: ext) '.' = p.length := by
    rw [hpath, rfind_append hdot, rfind_concat]
  have hsepIndex : rfind (p ++ '.' :: ext) '/' = rfind p '/' := by
    rw [hpath, rfind_append hsep, rfind_append (by decide)]
  have hbefore : rfind p '/' < p.length := by
    unfold rfind
    omega
  unfold root
  dsimp only
  rw [hdotIndex, hsepIndex, Int.toNat_natCast, List.take_left, drop_lastComponent, if_pos]
  refine ⟨hbefore, List.any_eq_true.2 ?_⟩
  obtain ⟨c, hc, hne⟩ := hnamed
  exact ⟨c, hc, by simpa using hne⟩

end Filenames
end Lib
end ContestManagement
