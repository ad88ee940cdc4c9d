import Cascade.Files.Path
import Cascade.Proofs.Text
import Mathlib.Data.Finset.Basic
import Mathlib.Data.Set.Finite.Basic
/-!
Where a path leads by its text alone: `.` counts for nothing and `..` takes back the last name. A path
that never climbs above its start stays inside every directory that it is put after, and only such a
path stays inside every one.
-/
namespace Cascade

namespace Path

/-- What a path comes to: it starts at the root or elsewhere, climbs so many times above its start and
goes down from there by names, the innermost first. -/
structure Place where
  rooted : Bool
  climbs : Nat
  names : List String
  deriving DecidableEq

namespace Place

def start : Place := ⟨false, 0, []⟩

/-- There is nothing above the root. -/
def step (p : Place) : Component → Place
  | .root => ⟨true, 0, []⟩
  | .here => p
  | .name s => { p with names := s :: p.names }
  | .up => match p.names with
    | _ :: names => { p with names }
    | [] => if p.rooted then p else { p with climbs := p.climbs + 1 }

def walk (p : Place) (cs : List Component) : Place := cs.foldl step p

@[simp] theorem walk_nil (p : Place) : p.walk [] = p := rfl

@[simp] theorem walk_cons (p : Place) (c : Component) (cs : List Component) :
    p.walk (c :: cs) = (p.step c).walk cs := rfl

@[simp] theorem walk_append (p : Place) (cs ds : List Component) :
    p.walk (cs ++ ds) = (p.walk cs).walk ds := List.foldl_append

end Place

def resolve (p : String) : Place := Place.start.walk (components p)

/-- Resolved by its text, `p` is the directory `dir` or something in it. -/
def Within (dir p : String) : Prop :=
  (resolve p).rooted = (resolve dir).rooted ∧ (resolve p).climbs = (resolve dir).climbs ∧
    (resolve dir).names <:+ (resolve p).names

instance (dir p : String) : Decidable (Within dir p) := inferInstanceAs (Decidable (_ ∧ _ ∧ _))

/-- Whether a path goes down from its start and never climbs above it. -/
def descends (p : String) : Bool := (depth? (components p)).isSome

/-- What never climbs above its start leaves all that is above it. -/
theorem walk_of_foldlM_depth? {n depth : Nat} {cs : List Component}
    (h : cs.foldlM Component.depth? n = some depth) (rooted : Bool) (climbs : Nat)
    {names : List String} (hn : names.length = n) (base : List String) :
    ∃ names', Place.walk ⟨rooted, climbs, names ++ base⟩ cs = ⟨rooted, climbs, names' ++ base⟩ := by
  induction cs generalizing n names with
  | nil => exact ⟨names, rfl⟩
  | cons c cs ih =>
    rw [List.foldlM_cons] at h
    cases c with
    | root => simp [Component.depth?] at h
    | here => exact ih h hn
    | name s => exact ih h (show (s :: names).length = n + 1 by simp [hn])
    | up =>
      cases names with
      | nil => simp [Component.depth?, ← hn] at h
      | cons s names =>
        obtain rfl : names.length + 1 = n := hn
        exact ih h rfl

/-- Whether a place is not below the name `s`. -/
def Place.Lost (s : String) (p : Place) : Prop := p.rooted = true ∨ p.climbs ≠ 0 ∨ s ∉ p.names

/-- A name that is lost does not come back, unless it is named again. -/
theorem Place.Lost.walk {s : String} {cs : List Component} (hs : .name s ∉ cs) {p : Place}
    (hp : p.Lost s) : (p.walk cs).Lost s := by
  induction cs generalizing p with
  | nil => exact hp
  | cons c cs ih =>
    simp only [List.mem_cons, not_or] at hs
    refine ih hs.2 ?_
    cases c with
    | root => exact .inl rfl
    | here => exact hp
    | name t =>
      have hst : s ≠ t := by
        rintro rfl
        exact hs.1 rfl
      simpa [Lost, Place.step, hst] using hp
    | up =>
      obtain ⟨rooted, climbs, names⟩ := p
      cases names with
      | nil => cases rooted <;> simp [Lost, Place.step]
      | cons t names =>
        refine hp.imp_right (.imp_right fun hm hm' => hm (List.mem_cons_of_mem t hm'))

/-- What climbs above its start loses the name above it. -/
theorem lost_of_foldlM_depth? {s : String} {n : Nat} {cs : List Component} (hs : .name s ∉ cs)
    (h : cs.foldlM Component.depth? n = none) {names : List String} (hn : names.length = n)
    (hm : s ∉ names) : (Place.walk ⟨false, 0, names ++ [s]⟩ cs).Lost s := by
  induction cs generalizing n names with
  | nil => simp at h
  | cons c cs ih =>
    rw [List.foldlM_cons] at h
    have hs' : .name s ∉ cs := fun hin => hs (List.mem_cons_of_mem c hin)
    cases c with
    | root => exact .walk hs' (.inl rfl)
    | here => exact ih hs' h hn hm
    | name t =>
      have hst : s ≠ t := by
        rintro rfl
        exact hs List.mem_cons_self
      exact ih hs' h (show (t :: names).length = n + 1 by simp [hn]) (by simp [hst, hm])
    | up =>
      cases names with
      | nil => exact .walk hs' (.inr (.inr List.not_mem_nil))
      | cons t names =>
        obtain rfl : names.length + 1 = n := hn
        exact ih hs' h rfl fun hm' => hm (List.mem_cons_of_mem t hm')

theorem toList_of_isAbsolute {p : String} (h : isAbsolute p = true) :
    ∃ rest, p.toList = '/' :: rest := by
  unfold isAbsolute at h
  cases hp : p.toList with
  | nil => simp [hp] at h
  | cons c rest =>
    obtain rfl : c = '/' := by simpa [hp] using h
    exact ⟨rest, rfl⟩

theorem pieces_slash (a b : String) : pieces (a ++ "/" ++ b) = pieces a ++ pieces b := by
  have hslash : "/".toList = ['/'] := rfl
  simp only [pieces, Text.splitBy_eq_splitOnP, String.toList_append, hslash, List.append_assoc,
    List.singleton_append]
  rw [List.splitOnP_append_cons _ _ (by simp), List.map_append]

theorem pieces_empty : pieces "" = [""] := rfl

@[simp] theorem ofPiece?_empty : ofPiece? "" = none := rfl

@[simp] theorem ofPiece?_point : ofPiece? "." = none := rfl

theorem pieces_of_isAbsolute {p : String} (h : isAbsolute p = true) :
    ∃ rest, pieces p = "" :: rest := by
  obtain ⟨rest, hp⟩ := toList_of_isAbsolute h
  refine ⟨(rest.splitOnP (· = '/')).map String.ofList, ?_⟩
  simp [pieces, Text.splitBy_eq_splitOnP, hp, List.splitOnP_cons_eq_if_modifyHead]

/-- The components of a relative path, from its pieces. -/
theorem walk_components {p : String} (h : isAbsolute p = false) (q : Place) :
    q.walk (components p) = q.walk ((pieces p).filterMap ofPiece?) := by
  unfold components cut
  split <;> simp_all [Start.components, Place.step, List.filterMap_cons]

theorem components_of_isAbsolute {p : String} (h : isAbsolute p = true) :
    components p = .root :: (pieces p).filterMap ofPiece? := by
  obtain ⟨rest, hp⟩ := pieces_of_isAbsolute h
  simp [components, cut, hp, h, Start.components, List.filterMap_cons]

/-- Where the pieces of a path start. -/
def origin (p : String) : Place := if isAbsolute p then ⟨true, 0, []⟩ else .start

theorem resolve_eq (p : String) :
    resolve p = (origin p).walk ((pieces p).filterMap ofPiece?) := by
  unfold resolve origin
  cases h : isAbsolute p with
  | true =>
    rw [components_of_isAbsolute h]
    rfl
  | false => exact walk_components h .start

theorem isAbsolute_append {a : String} (ha : a ≠ "") (b : String) :
    isAbsolute (a ++ b) = isAbsolute a := by
  have hne : a.toList ≠ [] := by simpa using ha
  simp [isAbsolute, String.toList_append, List.head?_append_of_ne_nil _ hne]

theorem eq_append_slash {p : String} (h : p.toList.getLast? = some '/') : ∃ q, p = q ++ "/" := by
  obtain ⟨l, hl⟩ := List.getLast?_eq_some_iff.mp h
  exact ⟨String.ofList l, by rw [← String.toList_inj, hl]; simp⟩

/-- The pieces of a relative path come after those of the directory. -/
theorem filterMap_pieces_join (dir : String) {p : String} (h : isAbsolute p = false) :
    (pieces (join dir p)).filterMap ofPiece? =
      (pieces dir).filterMap ofPiece? ++ (pieces p).filterMap ofPiece? := by
  unfold join
  rw [h]
  simp only [Bool.false_eq_true, ↓reduceIte]
  split
  next hd =>
    rcases Bool.or_eq_true_iff.mp hd with hempty | hslash
    · obtain rfl : dir = "" := by simpa using hempty
      simp [pieces_empty]
    · obtain ⟨q, rfl⟩ := eq_append_slash (by simpa using hslash)
      have hq : pieces (q ++ "/") = pieces q ++ [""] := by
        simpa [pieces_empty] using pieces_slash q ""
      simp [pieces_slash, hq]
  next => rw [pieces_slash, List.filterMap_append]

theorem isAbsolute_join (dir : String) {p : String} (h : isAbsolute p = false) :
    isAbsolute (join dir p) = isAbsolute dir := by
  unfold join
  rw [h]
  simp only [Bool.false_eq_true, ↓reduceIte]
  split
  next =>
    by_cases hd : dir = ""
    · subst hd
      rw [String.empty_append, h]
      rfl
    · exact isAbsolute_append hd p
  next hd =>
    have hne : dir ≠ "" := by
      rintro rfl
      exact hd rfl
    rw [String.append_assoc, isAbsolute_append hne]

/-- A path leads on from the directory that it is put after; an absolute one starts anew. -/
theorem resolve_join (dir p : String) : resolve (join dir p) = (resolve dir).walk (components p) := by
  cases h : isAbsolute p with
  | true =>
    have hjoin : join dir p = p := by simp [join, h]
    rw [hjoin, resolve, components_of_isAbsolute h]
    rfl
  | false =>
    rw [walk_components h, resolve_eq, resolve_eq dir, filterMap_pieces_join dir h,
      Place.walk_append, origin, origin, isAbsolute_join dir h]

/-- A name of one letter, as long as one likes. -/
def nameOfLength (n : Nat) : String := String.ofList (List.replicate (n + 1) 'x')

theorem resolve_nameOfLength (n : Nat) : resolve (nameOfLength n) = ⟨false, 0, [nameOfLength n]⟩ := by
  have hpieces : pieces (nameOfLength n) = [nameOfLength n] := by
    rw [pieces, Text.splitBy_eq_splitOnP, nameOfLength, String.toList_ofList,
      List.splitOnP_eq_singleton fun c hc => by simp [List.eq_of_mem_replicate hc]]
    rfl
  have hhead : (nameOfLength n).toList.head? = some 'x' := by
    simp [nameOfLength, List.replicate_succ]
  have hpiece : ofPiece? (nameOfLength n) = some (.name (nameOfLength n)) := by
    unfold ofPiece?
    split
    next h => exact absurd (h ▸ hhead) (by decide)
    next h => exact absurd (h ▸ hhead) (by decide)
    next h => exact absurd (h ▸ hhead) (by decide)
    next => rfl
  have hrelative : isAbsolute (nameOfLength n) = false := by
    simp [isAbsolute, hhead]
  rw [resolve_eq, hpieces, origin, hrelative]
  simp [hpiece, Place.start, Place.step]

theorem nameOfLength_injective : Function.Injective nameOfLength := by
  intro m n h
  have hl := congrArg String.length h
  simpa [nameOfLength] using hl

/-- There is a name that no component of a path is. -/
theorem exists_name_notMem (cs : List Component) :
    ∃ s, resolve s = ⟨false, 0, [s]⟩ ∧ .name s ∉ cs := by
  have hinj : Function.Injective fun n => Component.name (nameOfLength n) := fun m n h =>
    nameOfLength_injective (Component.name.inj h)
  obtain ⟨c, ⟨n, rfl⟩, hc⟩ :=
    (Set.infinite_range_of_injective hinj).exists_notMem_finset cs.toFinset
  exact ⟨_, resolve_nameOfLength n, fun hm => hc (List.mem_toFinset.mpr hm)⟩

/-- The paths that stay inside every directory are those that never climb above their start. -/
theorem forall_within_join_iff {p : String} : (∀ dir, Within dir (join dir p)) ↔ descends p := by
  constructor
  · intro h
    obtain ⟨s, hs, hfresh⟩ := exists_name_notMem (components p)
    obtain ⟨hrooted, hclimbs, hnames⟩ := h s
    rw [resolve_join, hs] at hrooted hclimbs hnames
    by_contra hd
    have hdepth : (components p).foldlM Component.depth? 0 = none := by
      simpa [descends, depth?] using hd
    rcases lost_of_foldlM_depth? hfresh hdepth rfl List.not_mem_nil with hl | hl | hl
    · exact absurd (hl.symm.trans hrooted) (by simp)
    · exact hl hclimbs
    · exact hl (hnames.mem List.mem_cons_self)
  · intro h dir
    obtain ⟨depth, hd⟩ := Option.isSome_iff_exists.mp h
    obtain ⟨names, hw⟩ := walk_of_foldlM_depth? hd (resolve dir).rooted (resolve dir).climbs
      List.length_nil (resolve dir).names
    have hjoin : resolve (join dir p) =
        ⟨(resolve dir).rooted, (resolve dir).climbs, names ++ (resolve dir).names⟩ := by
      rw [resolve_join]
      exact hw
    rw [Within, hjoin]
    exact ⟨rfl, rfl, List.suffix_append names _⟩

theorem ofPiece?_eq_some {s : String} {c : Component} (h : ofPiece? s = some c) :
    c = .name s ∨ (s = ".." ∧ c = .up) := by
  unfold ofPiece? at h
  split at h
  next => exact absurd h (by simp)
  next => exact absurd h (by simp)
  next => exact .inr ⟨rfl, (Option.some.inj h).symm⟩
  next => exact .inl (Option.some.inj h).symm

theorem isSome_foldlM_depth? {cs : List Component} (hroot : .root ∉ cs) (hup : .up ∉ cs) (n : Nat) :
    (cs.foldlM Component.depth? n).isSome := by
  induction cs generalizing n with
  | nil => rfl
  | cons c cs ih =>
    simp only [List.mem_cons, not_or] at hroot hup
    rw [List.foldlM_cons]
    cases c with
    | root => exact absurd rfl hroot.1
    | here => exact ih hroot.2 hup.2 n
    | up => exact absurd rfl hup.1
    | name s => exact ih hroot.2 hup.2 (n + 1)

theorem eq_or_mem_of_mem_components {p : String} (hr : isAbsolute p = false) {c : Component}
    (h : c ∈ components p) : c = .here ∨ c ∈ (pieces p).filterMap ofPiece? := by
  unfold components cut at h
  split at h <;> simp_all [Start.components, List.filterMap_cons]

/-- A relative path without `..` never climbs. -/
theorem descends_of_pieces {p : String} (hr : isAbsolute p = false) (h : ".." ∉ pieces p) :
    descends p = true := by
  have hcomponent : ∀ c ∈ components p, c ≠ .root ∧ c ≠ .up := by
    intro c hc
    rcases eq_or_mem_of_mem_components hr hc with rfl | hc
    · exact ⟨by simp, by simp⟩
    · obtain ⟨s, hs, hsc⟩ := List.mem_filterMap.mp hc
      rcases ofPiece?_eq_some hsc with rfl | ⟨rfl, rfl⟩
      · exact ⟨by simp, by simp⟩
      · exact absurd hs h
  exact isSome_foldlM_depth? (fun hm => (hcomponent _ hm).1 rfl)
    (fun hm => (hcomponent _ hm).2 rfl) 0

end Path
end Cascade
