import Cascade.Proofs.Hierarchy
import Cascade.Proofs.Interpolation
import Cascade.Proofs.Paths
/-!
Whether the facts of a node can move a data file out of its data directory. What a reference is
replaced by never holds a slash and is never `..`, so the slashes of a path are those of its template.
What stands between two of them can still come to `..`, in parts that are each harmless, and a path
whose first part comes to nothing starts at the root.
-/
namespace Cascade

namespace Template

variable {scope : Value} {segment : List Piece} {p : Piece} {ps : List Piece}

theorem slash_notMem_of_isSafe {text : String} (h : isSafe text = true) : '/' ∉ text.toList :=
  fun hm => isSafe_iff.mp h (.inr (.inl hm))

def Piece.char? : Piece → Option Char
  | literal c => some c
  | reference _ => none

/-- The characters of a template outside its references. -/
def literalText (template : String) : List Char :=
  (pieces template.toList).filterMap Piece.char?

/-- The only slash that a piece puts into a path is its own. -/
theorem slash_notMem_expand (h : p ≠ .literal '/') : '/' ∉ p.expand isSafe scope := by
  cases p with
  | literal c =>
    have hc : '/' ≠ c := by
      rintro rfl
      exact h rfl
    simpa [Piece.expand] using hc
  | reference path =>
    simp only [Piece.expand]
    split
    next hs => exact slash_notMem_of_isSafe hs
    next => exact List.not_mem_nil

/-- The text of some pieces in a path. -/
def pathText (scope : Value) (ps : List Piece) : List Char := ps.flatMap (Piece.expand isSafe scope)

theorem toList_interpolatePath (scope : Value) (template : String) :
    (interpolatePath scope template).toList = pathText scope (pieces template.toList) :=
  String.toList_ofList

theorem mem_pathText {c : Char} (h : .literal c ∈ ps) : c ∈ pathText scope ps :=
  List.mem_flatMap.mpr ⟨_, h, List.mem_singleton_self c⟩

theorem splitOnP_append {xs : List Char} (h : '/' ∉ xs) (ys : List Char) :
    (xs ++ ys).splitOnP (· = '/') = (ys.splitOnP (· = '/')).modifyHead (xs ++ ·) := by
  induction xs with
  | nil =>
    rw [List.nil_append]
    cases ys.splitOnP (· = '/') <;> rfl
  | cons x xs ih =>
    simp only [List.mem_cons, not_or] at h
    have hx : ¬x = '/' := fun hx => h.1 hx.symm
    rw [List.cons_append, List.splitOnP_cons_eq_if_modifyHead, if_neg (by simpa using hx), ih h.2,
      List.modifyHead_modifyHead]
    rfl

/-- The slashes of a path are those of its template. -/
theorem splitOnP_pathText (scope : Value) (ps : List Piece) :
    (pathText scope ps).splitOnP (· = '/') =
      (ps.splitOnP (· = .literal '/')).map (pathText scope) := by
  induction ps with
  | nil => rfl
  | cons p ps ih =>
    have hcons : pathText scope (p :: ps) = p.expand isSafe scope ++ pathText scope ps := rfl
    rw [hcons, List.splitOnP_cons_eq_if_modifyHead]
    by_cases hp : p = .literal '/'
    · subst hp
      rw [if_pos (by simp), List.map_cons, ← ih]
      exact List.splitOnP_cons_eq_if_modifyHead '/' (pathText scope ps)
    · rw [if_neg (by simpa using hp), splitOnP_append (slash_notMem_expand hp), ih]
      cases ps.splitOnP (· = .literal '/') <;> rfl

/-- The pieces between the slashes of a template. -/
def segments (template : String) : List (List Piece) :=
  (pieces template.toList).splitOnP (· = .literal '/')

/-- Whether some pieces come to `..` for no facts at all: a single reference is never replaced by it,
and it has no character but the point. -/
def isFirm (segment : List Piece) : Bool :=
  segment.length ≤ 1 || segment.any fun p => p.char?.any (· != '.')

theorem pathText_ne_of_isFirm (h : isFirm segment = true) : pathText scope segment ≠ ['.', '.'] := by
  rcases Bool.or_eq_true_iff.mp h with hlen | hany
  · rcases segment with _ | ⟨p, _ | ⟨q, rest⟩⟩
    · exact (List.cons_ne_nil _ _).symm
    · simp only [pathText, List.flatMap_singleton]
      cases p with
      | literal c => simp [Piece.expand]
      | reference path =>
        intro ht
        simp only [Piece.expand] at ht
        split at ht
        next hs =>
          have hdots : valueText scope path = ".." := String.toList_inj.mp ht
          rw [hdots] at hs
          exact absurd hs (by decide)
        next => exact absurd ht (by simp)
    · simp at hlen
  · obtain ⟨p, hp, hplain⟩ := List.any_eq_true.mp hany
    cases p with
    | reference path => simp [Piece.char?] at hplain
    | literal c =>
      intro ht
      have hc : c ∈ pathText scope segment := mem_pathText hp
      rw [ht] at hc
      obtain rfl : c = '.' := by simpa using hc
      simp [Piece.char?] at hplain

/-- Whether a template leads down from its directory for all facts: what stands between two slashes is
firm, and if there is a slash some character stands before it. -/
def isAnchored (template : String) : Bool :=
  (segments template).all isFirm &&
    ((segments template).length = 1 || (segments template).head?.any (·.any (·.char?.isSome)))

theorem descends_of_isAnchored {template : String} (h : isAnchored template = true) (scope : Value) :
    Path.descends (interpolatePath scope template) = true := by
  obtain ⟨hfirm, hfirst⟩ := Bool.and_eq_true_iff.mp h
  have hsplit : (interpolatePath scope template).toList.splitOnP (· = '/') =
      (segments template).map (pathText scope) := by
    rw [toList_interpolatePath, splitOnP_pathText]
    rfl
  apply Path.descends_of_pieces
  · by_contra habs
    obtain ⟨rest, hrest⟩ := Path.toList_of_isAbsolute (by simpa using habs)
    rw [hrest, List.splitOnP_cons_eq_if_modifyHead, if_pos (by simp)] at hsplit
    cases hs : segments template with
    | nil => simp [hs] at hsplit
    | cons segment more =>
      rw [hs, List.map_cons] at hsplit
      obtain ⟨hempty, hmore⟩ := List.cons.inj hsplit
      have hlen : more.length ≠ 0 := by
        intro h0
        rw [List.length_eq_zero_iff.mp h0] at hmore
        exact List.splitOnP_ne_nil _ _ hmore
      rw [hs] at hfirst
      obtain ⟨p, hp, hliteral⟩ : ∃ p ∈ segment, p.char?.isSome = true := by
        simpa [hlen] using hfirst
      cases p with
      | reference path => exact absurd hliteral (by simp [Piece.char?])
      | literal c =>
        have hc : c ∈ pathText scope segment := mem_pathText hp
        rw [← hempty] at hc
        exact absurd hc List.not_mem_nil
  · intro hm
    rw [Path.pieces, Text.splitBy_eq_splitOnP, hsplit] at hm
    simp only [List.map_map, List.mem_map, Function.comp_apply] at hm
    obtain ⟨segment, hs, ht⟩ := hm
    have hdots : pathText scope segment = ['.', '.'] := by
      simpa using congrArg String.toList ht
    exact pathText_ne_of_isFirm (List.all_eq_true.mp hfirm segment hs) hdots

end Template

namespace Compiled

variable {files : Files} {h : Hierarchy} {facts trusted : Facts} {c : Compiled} {n : Nat}
  {l : CompiledLevel}

/-- Levels are bound in the order of the hierarchy. -/
theorem level_of_compile (hc : compile files h facts trusted = .ok c) (hl : c.levels[n]? = some l) :
    h.levels[n]? = some l.level ∧ l.path = pathOf h l.level c.facts trusted := by
  obtain ⟨level, hlevel, hb⟩ := exists_of_mapM_getElem? (bindLevels_of_compile hc) hl
  obtain ⟨file, -, rfl⟩ := bindLevel_eq_ok.mp hb
  exact ⟨hlevel, rfl⟩

/-- A level reads the file that its filled-in template leads to from its data directory. That leads
down from every directory if and only if it does not climb, and if the template is anchored it never
leaves its directory, whatever the facts are. -/
theorem path_within (hc : compile files h facts trusted = .ok c) (hl : c.levels[n]? = some l) :
    let text := Template.interpolatePath (scope c.facts trusted) l.level.template
    let dir := l.level.datadir.getD h.datadir
    h.levels[n]? = some l.level ∧ l.path = Path.join dir text ∧
      ((∀ dir, Path.Within dir (Path.join dir text)) ↔ Path.descends text = true) ∧
      (Template.isAnchored l.level.template = true → Path.Within dir l.path) := by
  intro text dir
  obtain ⟨hlevel, hpath⟩ := level_of_compile hc hl
  refine ⟨hlevel, hpath, Path.forall_within_join_iff, fun ha => ?_⟩
  rw [hpath]
  exact Path.forall_within_join_iff.mpr (Template.descends_of_isAnchored ha _) dir

def noFiles : Files := .empty [] 0

/-- Facts that stand for a point, for a name that climbs and for nothing. -/
def mixedFacts : Facts := [("a", .string "."), ("b", .string ".."), ("c", .string "")]

/-- Several references side by side, some without a value, between characters of the template. -/
def mixedLevel : Level :=
  ⟨"nodes", "nodes/%\x7ba\x7d/x%\x7ba\x7d%\x7bb\x7d%\x7bc\x7d%\x7bd\x7d/%\x7bb\x7d", none, none⟩

def mixed : Compiled := ⟨[⟨mixedLevel, "data/nodes/./x./", none, none⟩], mixedFacts⟩

theorem compile_mixed : compile noFiles ⟨5, "data", none, [mixedLevel]⟩ mixedFacts [] = .ok mixed :=
  rfl

theorem mixed_path_within : mixed.levels[0]? = some ⟨mixedLevel, "data/nodes/./x./", none, none⟩ ∧
    Template.isAnchored mixedLevel.template = true ∧ Path.Within "data" "data/nodes/./x./" := by
  have hanchored : Template.isAnchored mixedLevel.template = true := by decide +kernel
  obtain ⟨-, -, -, hwithin⟩ := path_within (n := 0) compile_mixed rfl
  exact ⟨rfl, hanchored, hwithin hanchored⟩

/-- The template starts with no slash and has no two points side by side, and with a point for each of
its references the path is that of a file beside the data directory. -/
theorem not_confined : ¬∀ (files : Files) (h : Hierarchy) (facts trusted : Facts) (c : Compiled)
    (n : Nat) (l : CompiledLevel), compile files h facts trusted = .ok c → c.levels[n]? = some l →
      Path.isAbsolute l.level.template = false →
      Text.occursIn ['.', '.'] (Template.literalText l.level.template) = false →
      Path.Within (l.level.datadir.getD h.datadir) l.path := by
  intro hall
  have hwithin := hall noFiles ⟨5, "data", none, [⟨"secret", "%\x7ba\x7d%\x7bb\x7d/secret.yaml", none,
    none⟩]⟩ [("a", .string "."), ("b", .string ".")] [] _ 0 _ rfl rfl (by decide +kernel)
    (by decide +kernel)
  exact absurd hwithin (by decide +kernel)

end Compiled
end Cascade
