import Cascade.Proofs.Paths
/-!
The components of a path that is put together from others, cut off at a directory that it is in, or
given another extension.
-/
namespace Cascade.Path

variable {base p rest : String} {ps rest' : List String} {start : Start}

theorem slash_notMem_of_mem_pieces {s : String} (h : s ∈ pieces p) : '/' ∉ s.toList := by
  rw [pieces, Text.splitBy_eq_splitOnP] at h
  obtain ⟨l, hl, rfl⟩ := List.mem_map.mp h
  rw [String.toList_ofList]
  exact Text.notMem_of_mem_splitOnP hl

theorem pieces_ne_nil (p : String) : pieces p ≠ [] := fun h =>
  Text.splitBy_ne_nil _ _ (List.map_eq_nil_iff.mp h)

theorem pieces_of_slash_notMem {s : String} (h : '/' ∉ s.toList) : pieces s = [s] := by
  have hsplit : s.toList.splitOnP (· = '/') = [s.toList] :=
    List.splitOnP_eq_singleton fun c hc => by
      have hne : c ≠ '/' := fun he => h (he ▸ hc)
      simpa using hne
  rw [pieces, Text.splitBy_eq_splitOnP, hsplit, List.map_singleton, String.ofList_toList]

/-- Pieces without slashes are found again when they are put together. -/
theorem pieces_slashed (hne : ps ≠ []) (h : ∀ s ∈ ps, '/' ∉ s.toList) :
    pieces (slashed ps) = ps := by
  induction ps with
  | nil => exact absurd rfl hne
  | cons s ps ih =>
    have hs : pieces s = [s] := pieces_of_slash_notMem (h s List.mem_cons_self)
    cases ps with
    | nil => simpa [slashed] using hs
    | cons t ps =>
      have hcons : slashed (s :: t :: ps) = s ++ "/" ++ slashed (t :: ps) :=
        String.intercalate_cons_cons
      rw [hcons, pieces_slash, hs,
        ih (List.cons_ne_nil t ps) fun u hu => h u (List.mem_cons_of_mem s hu)]
      rfl

theorem isFiller_iff {s : String} : isFiller s = true ↔ ofPiece? s = none := by
  simp [isFiller]

theorem ofPiece?_of_length {s : String} (h : 2 < s.length) : ofPiece? s = some (.name s) := by
  unfold ofPiece?
  split
  next => exact absurd h (by decide)
  next => exact absurd h (by decide)
  next => exact absurd h (by decide)
  next => rfl

/-- What starts a path, by its text. -/
theorem cut_fst (p : String) : (cut p).1 =
    if isAbsolute p then .root else if (pieces p).head? = some "." then .here else .plain := by
  unfold cut
  split
  next rest h =>
    rw [h]
    cases isAbsolute p <;> rfl
  next rest h =>
    have hr : isAbsolute p ≠ true := by
      intro hr
      obtain ⟨rest', h'⟩ := pieces_of_isAbsolute hr
      exact absurd (List.cons.inj (h.symm.trans h')).1 (by decide)
    rw [if_neg hr, h]
    rfl
  next hempty hpoint =>
    have hr : isAbsolute p ≠ true := by
      intro hr
      obtain ⟨rest', h'⟩ := pieces_of_isAbsolute hr
      exact hempty rest' h'
    have hp : (pieces p).head? ≠ some "." := by
      intro hp
      obtain ⟨rest', h'⟩ := List.head?_eq_some_iff.mp hp
      exact hpoint rest' h'
    rw [if_neg hr, if_neg hp]

theorem filterMap_cut (p : String) :
    (cut p).2.filterMap ofPiece? = (pieces p).filterMap ofPiece? := by
  unfold cut
  split
  next rest h =>
    rw [h]
    cases isAbsolute p <;> rfl
  next rest h => rw [h, List.filterMap_cons, ofPiece?_point]
  next => rfl

theorem components_eq (p : String) :
    components p = (cut p).1.components ++ (pieces p).filterMap ofPiece? := by
  rw [components, filterMap_cut]

theorem isAbsolute_of_plain (h : (cut p).1 = .plain) : isAbsolute p = false := by
  rw [cut_fst] at h
  cases hr : isAbsolute p with
  | false => rfl
  | true => exact absurd h (by simp [hr])

/-- A path that starts with a name is added to the components of the directory it is put after. -/
theorem components_join (base : String) (h : (cut p).1 = .plain) :
    components (join base p) = components base ++ components p := by
  have hr : isAbsolute p = false := isAbsolute_of_plain h
  have hstart : (cut (join base p)).1 = (cut base).1 := by
    by_cases hb : base = ""
    · subst hb
      have hjoin : join "" p = p := by simp [join, hr]
      rw [hjoin]
      exact h
    · have hhead : (pieces (join base p)).head? = (pieces base).head? := by
        unfold join
        rw [hr, if_neg Bool.false_ne_true]
        split
        next hd =>
          rcases Bool.or_eq_true_iff.mp hd with hempty | hslash
          · exact absurd (by simpa using hempty) hb
          · obtain ⟨q, rfl⟩ := eq_append_slash (by simpa using hslash)
            have hq : pieces (q ++ "/") = pieces q ++ [""] := by
              simpa [pieces_empty] using pieces_slash q ""
            rw [pieces_slash, hq, List.head?_append_of_ne_nil _ (pieces_ne_nil q),
              List.head?_append_of_ne_nil _ (pieces_ne_nil q)]
        next => rw [pieces_slash, List.head?_append_of_ne_nil _ (pieces_ne_nil base)]
      rw [cut_fst, cut_fst, isAbsolute_join base hr, hhead]
  rw [components_eq, components_eq base, components_eq p, hstart, filterMap_pieces_join base hr, h,
    List.append_assoc]
  rfl

theorem getLast?_trimFillers {s : String} (h : (trimFillers ps).getLast? = some s) :
    ofPiece? s ≠ none := by
  rw [trimFillers, List.getLast?_reverse] at h
  have hfirst := List.head?_dropWhile_not isFiller ps.reverse
  rw [h] at hfirst
  exact fun hs => absurd (isFiller_iff.mpr hs) (by simp [hfirst])

theorem filterMap_dropWhile (ps : List String) :
    (ps.dropWhile isFiller).filterMap ofPiece? = ps.filterMap ofPiece? := by
  induction ps with
  | nil => rfl
  | cons s ps ih =>
    rw [List.dropWhile_cons]
    split
    next hs => rw [ih, List.filterMap_cons, isFiller_iff.mp hs]
    next => rfl

theorem filterMap_trimFillers (ps : List String) :
    (trimFillers ps).filterMap ofPiece? = ps.filterMap ofPiece? := by
  rw [trimFillers, List.filterMap_reverse, filterMap_dropWhile, List.filterMap_reverse,
    List.reverse_reverse]

theorem mem_of_mem_trimFillers {s : String} (h : s ∈ trimFillers ps) : s ∈ ps := by
  rw [trimFillers, List.mem_reverse] at h
  exact List.mem_reverse.mp ((List.dropWhile_sublist isFiller).mem h)

theorem trimFillers_isPrefix (ps : List String) : trimFillers ps <+: ps := by
  have h := (List.dropWhile_suffix isFiller (l := ps.reverse)).reverse
  rwa [List.reverse_reverse] at h

theorem filterMap_dropNames (n : Nat) (ps : List String) :
    (dropNames n ps).filterMap ofPiece? = (ps.filterMap ofPiece?).drop n := by
  induction ps generalizing n with
  | nil => cases n <;> rfl
  | cons s ps ih =>
    cases n with
    | zero => rfl
    | succ n =>
      rw [dropNames, ih]
      cases hs : ofPiece? s with
      | none => rw [List.filterMap_cons, hs, if_pos (isFiller_iff.mpr hs)]
      | some c =>
        have hf : ¬isFiller s = true := fun hf => absurd (isFiller_iff.mp hf) (by simp [hs])
        rw [List.filterMap_cons, hs, if_neg hf, List.drop_succ_cons]

theorem mem_of_mem_dropNames {n : Nat} {s : String} (h : s ∈ dropNames n ps) : s ∈ ps := by
  induction ps generalizing n with
  | nil => cases n <;> exact h
  | cons t ps ih =>
    cases n with
    | zero => exact h
    | succ n => exact List.mem_cons_of_mem t (ih h)

/-- The pieces after the start of a path hold no slash. -/
theorem slash_notMem_of_mem_cut {s : String} (h : s ∈ (cut p).2) : '/' ∉ s.toList := by
  refine slash_notMem_of_mem_pieces (p := p) ?_
  unfold cut at h
  split at h
  next rest hp =>
    rw [hp]
    cases hr : isAbsolute p <;> simp only [hr] at h <;> exact List.mem_cons_of_mem _ h
  next rest hp =>
    rw [hp]
    exact List.mem_cons_of_mem _ h
  next => exact h

/-- A path that starts with a name, put together from pieces. -/
theorem cut_slashed (hs : ∀ s ∈ ps, '/' ∉ s.toList) (hempty : ps.head? ≠ some "")
    (hpoint : ps.head? ≠ some ".") : (cut (slashed ps)).1 = .plain ∧
      components (slashed ps) = ps.filterMap ofPiece? := by
  cases ps with
  | nil => exact ⟨rfl, rfl⟩
  | cons s ps =>
    have hpieces : pieces (slashed (s :: ps)) = s :: ps := pieces_slashed (List.cons_ne_nil s ps) hs
    have hr : isAbsolute (slashed (s :: ps)) ≠ true := by
      intro hr
      obtain ⟨rest, h⟩ := pieces_of_isAbsolute hr
      obtain ⟨rfl, -⟩ := List.cons.inj (hpieces.symm.trans h)
      exact hempty rfl
    have hstart : (cut (slashed (s :: ps))).1 = .plain := by
      rw [cut_fst, if_neg hr, hpieces, if_neg hpoint]
    exact ⟨hstart, by rw [components_eq, hstart, hpieces]; rfl⟩

/-- Only a path that starts at the root has something after an empty first piece. -/
theorem eq_empty_of_pieces (h : pieces p = "" :: rest') (hr : isAbsolute p = false) : p = "" := by
  rw [pieces, Text.splitBy_eq_splitOnP] at h
  cases hp : p.toList with
  | nil => exact String.toList_inj.mp hp
  | cons c s =>
    have hc : ¬c = '/' := by simpa [isAbsolute, hp] using hr
    obtain ⟨first, more, hs⟩ := List.exists_cons_of_ne_nil (List.splitOnP_ne_nil (· = '/') s)
    rw [hp, List.splitOnP_cons_eq_if_modifyHead, if_neg (by simpa using hc), hs,
      List.modifyHead_cons, List.map_cons] at h
    have hfirst := congrArg String.toList (List.cons.inj h).1
    exact absurd hfirst (by simp)

/-- Only the empty path has no components. -/
theorem components_ne_nil (h : p ≠ "") : components p ≠ [] := by
  intro hnil
  rw [components_eq] at hnil
  obtain ⟨hstart, hnone⟩ := List.append_eq_nil_iff.mp hnil
  cases hps : pieces p with
  | nil => exact pieces_ne_nil p hps
  | cons s ps =>
    rw [cut_fst] at hstart
    have hs : ofPiece? s = none := List.filterMap_eq_nil_iff.mp hnone s (hps ▸ List.mem_cons_self)
    cases hr : isAbsolute p with
    | true => exact absurd hstart (by simp [hr, Start.components])
    | false =>
      unfold ofPiece? at hs
      split at hs
      next => exact h (eq_empty_of_pieces hps hr)
      next => exact absurd hstart (by simp [hr, hps, Start.components])
      next => exact absurd hs (by simp)
      next => exact absurd hs (by simp)

theorem head?_of_plain (h : (cut p).1 = .plain) :
    (cut p).2.head? ≠ some "" ∧ (cut p).2.head? ≠ some "." := by
  unfold cut at h ⊢
  split at h
  next rest hp =>
    cases hr : isAbsolute p with
    | true => exact absurd h (by simp [hr])
    | false =>
      obtain rfl := eq_empty_of_pieces hp hr
      obtain ⟨-, rfl⟩ := List.cons.inj (pieces_empty.symm.trans hp)
      exact ⟨nofun, nofun⟩
  next => exact absurd h (by simp)
  next hempty hpoint =>
    constructor <;> intro hp <;> obtain ⟨rest, hp⟩ := List.head?_eq_some_iff.mp hp
    · exact hempty rest hp
    · exact hpoint rest hp

theorem head?_of_head?_trimFillers {s : String} (h : (trimFillers ps).head? = some s) :
    ps.head? = some s := by
  obtain ⟨fillers, hps⟩ := trimFillers_isPrefix ps
  rw [← hps, List.head?_append, h]
  rfl

/-- Pieces put together without the fillers at both ends. -/
theorem cut_slashed_trimmed (hs : ∀ s ∈ ps, '/' ∉ s.toList) :
    (cut (slashed (trimFillers (ps.dropWhile isFiller)))).1 = .plain ∧
      components (slashed (trimFillers (ps.dropWhile isFiller))) = ps.filterMap ofPiece? := by
  have hslash : ∀ s ∈ trimFillers (ps.dropWhile isFiller), '/' ∉ s.toList := fun s hm =>
    hs s ((List.dropWhile_sublist isFiller).mem (mem_of_mem_trimFillers hm))
  have hhead : ∀ s, (trimFillers (ps.dropWhile isFiller)).head? = some s → isFiller s = false := by
    intro s hm
    have hfirst := List.head?_dropWhile_not isFiller ps
    rwa [head?_of_head?_trimFillers hm] at hfirst
  rw [← filterMap_dropWhile, ← filterMap_trimFillers]
  exact cut_slashed hslash (fun h => absurd (hhead "" h) (by decide))
    (fun h => absurd (hhead "." h) (by decide))

/-- What leads from a directory to a path comes after the components of the directory. -/
theorem components_of_stripBase? (h : stripBase? base p = some rest) (hb : components base ≠ []) :
    (cut rest).1 = .plain ∧ components p = components base ++ components rest := by
  unfold stripBase? at h
  dsimp only at h
  split at h
  next hprefix =>
    rw [if_neg (by simpa using hb)] at h
    obtain rfl := Option.some.inj h
    obtain ⟨hplain, hrest⟩ := cut_slashed_trimmed fun s hs =>
      slash_notMem_of_mem_cut (mem_of_mem_dropNames hs)
    refine ⟨hplain, ?_⟩
    obtain ⟨cs, hcs⟩ := List.isPrefixOf_iff_prefix.mp hprefix
    have hpos : 0 < (components base).length := List.length_pos_of_ne_nil hb
    have hstart : (cut p).1.components.length ≤ 1 := by cases (cut p).1 <;> decide
    have hdrop : (components p).drop (components base).length =
        ((cut p).2.filterMap ofPiece?).drop
          ((components base).length - (cut p).1.components.length) := by
      have hp : components p = (cut p).1.components ++ (cut p).2.filterMap ofPiece? := rfl
      rw [hp, List.drop_append, List.drop_eq_nil_of_le (by omega), List.nil_append]
    rw [hrest, filterMap_dropNames, ← hdrop, ← hcs, List.drop_left]
  next => exact absurd h (by simp)

/-- A path whose first component is a name starts with it. -/
theorem plain_of_components {s : String} {cs : List Component}
    (h : components p = .name s :: cs) : (cut p).1 = .plain := by
  rw [components] at h
  cases hstart : (cut p).1 with
  | plain => rfl
  | root | here => simp [hstart, Start.components] at h

/-- A path that starts with a name is cut off at any directory that it is in, the empty path included. -/
theorem components_of_stripBase?_plain (h : stripBase? base p = some rest)
    (hplain : base = "" → (cut p).1 = .plain) :
    (cut rest).1 = .plain ∧ components p = components base ++ components rest := by
  by_cases hbase : base = ""
  · subst hbase
    have hp := hplain rfl
    have hnil : components "" = [] := rfl
    unfold stripBase? at h
    dsimp only at h
    rw [hnil, List.isPrefixOf_nil_left, if_pos rfl, List.isEmpty_nil, if_pos rfl, hp] at h
    obtain rfl := Option.some.inj h
    obtain ⟨hempty, hpoint⟩ := head?_of_plain hp
    have hslash : ∀ s ∈ trimFillers (cut p).2, '/' ∉ s.toList := fun s hs =>
      slash_notMem_of_mem_cut (mem_of_mem_trimFillers hs)
    obtain ⟨hstart, hrest⟩ := cut_slashed hslash (fun hs => hempty (head?_of_head?_trimFillers hs))
      fun hs => hpoint (head?_of_head?_trimFillers hs)
    refine ⟨hstart, ?_⟩
    rw [hnil, assemble, hrest, filterMap_trimFillers, components, hp]
    rfl
  · exact components_of_stripBase? h (components_ne_nil hbase)

/-- What the directory is a beginning of can be cut off at it. -/
theorem exists_stripBase? (h : components base <+: components p) :
    ∃ rest, stripBase? base p = some rest := by
  unfold stripBase?
  dsimp only
  rw [if_pos (List.isPrefixOf_iff_prefix.mpr h)]
  split
  · exact ⟨_, rfl⟩
  · exact ⟨_, rfl⟩

theorem components_assemble (hs : ∀ s ∈ ps, '/' ∉ s.toList)
    (hp : start = .plain → ps.head? ≠ some "" ∧ ps.head? ≠ some ".") :
    components (assemble start ps) = start.components ++ ps.filterMap ofPiece? := by
  cases start with
  | plain => exact (cut_slashed hs (hp rfl).1 (hp rfl).2).2
  | root =>
    have hr : isAbsolute ("/" ++ slashed ps) = true := isAbsolute_append (by decide) _
    have hpieces : pieces ("/" ++ slashed ps) = "" :: pieces (slashed ps) := pieces_slash "" _
    rw [assemble, components_of_isAbsolute hr, hpieces, List.filterMap_cons, ofPiece?_empty]
    cases ps with
    | nil => rfl
    | cons s ps =>
      rw [pieces_slashed (List.cons_ne_nil s ps) hs]
      rfl
  | here =>
    cases ps with
    | nil => rfl
    | cons s ps =>
      have hassemble : assemble .here (s :: ps) = "." ++ "/" ++ slashed (s :: ps) := rfl
      have hcut : cut (assemble .here (s :: ps)) = (.here, s :: ps) := by
        rw [cut, hassemble, pieces_slash, pieces_slashed (List.cons_ne_nil s ps) hs]
        rfl
      rw [components, hcut]

theorem splitExtension_eq {name stem ext : String} (h : splitExtension name = (stem, some ext)) :
    name = stem ++ "." ++ ext := by
  unfold splitExtension at h
  split at h
  · exact absurd h nofun
  · exact absurd h nofun
  next hsplit =>
    obtain ⟨rfl, hext⟩ := Prod.mk.inj h
    obtain rfl := Option.some.inj hext
    rw [← String.toList_inj, Text.rsplitOnce_eq hsplit]
    simp [String.toList_append]

theorem slash_notMem_splitExtension {name : String} (h : '/' ∉ name.toList) :
    '/' ∉ (splitExtension name).1.toList := by
  unfold splitExtension
  split
  · exact h
  · exact h
  next hsplit =>
    intro hm
    rw [String.toList_ofList] at hm
    refine h ?_
    rw [Text.rsplitOnce_eq hsplit, List.append_assoc]
    exact List.mem_append_left _ hm

theorem fileName?_eq_some {name : String} :
    fileName? p = some name ↔ (components p).getLast? = some (.name name) := by
  unfold fileName?
  constructor <;> intro h
  · split at h
    next hl => rw [hl, Option.some.inj h]
    next => exact absurd h (by simp)
  · rw [h]

/-- Another extension changes the last component and no other. -/
theorem components_withExtension {ext name : String} (hlen : 1 < ext.length)
    (hext : '/' ∉ ext.toList) (h : fileName? p = some name) :
    components (withExtension ext p) =
      (components p).dropLast ++ [.name ((splitExtension name).1 ++ "." ++ ext)] := by
  have hlast : (components p).getLast? = some (.name name) := fileName?_eq_some.mp h
  have hcomponents : components p =
      (cut p).1.components ++ (trimFillers (cut p).2).filterMap ofPiece? := by
    rw [filterMap_trimFillers]
    rfl
  obtain ⟨before, last, hps⟩ : ∃ before last, trimFillers (cut p).2 = before ++ [last] := by
    rcases List.eq_nil_or_concat (trimFillers (cut p).2) with hnil | ⟨before, last, hps⟩
    · rw [hcomponents, hnil] at hlast
      cases hstart : (cut p).1 <;> simp [hstart, Start.components] at hlast
    · exact ⟨before, last, by simpa using hps⟩
  obtain ⟨c, hc⟩ :=
    Option.ne_none_iff_exists'.mp (getLast?_trimFillers (hps ▸ List.getLast?_concat))
  rw [hps, List.filterMap_append, List.filterMap_cons_some hc, List.filterMap_nil,
    ← List.append_assoc] at hcomponents
  obtain rfl : c = .name name := by
    rw [hcomponents] at hlast
    simpa using hlast
  obtain rfl : last = name := by
    rcases ofPiece?_eq_some hc with he | ⟨-, he⟩
    · exact (Component.name.inj he).symm
    · exact absurd he (by simp)
  have hslash : ∀ s ∈ before ++ [last], '/' ∉ s.toList := fun s hs =>
    slash_notMem_of_mem_cut (mem_of_mem_trimFillers (hps ▸ hs))
  have hnew : 2 < ((splitExtension last).1 ++ "." ++ ext).length := by
    have hpoint : ".".length = 1 := rfl
    simp only [String.length_append, hpoint]
    omega
  have hnewSlash : '/' ∉ ((splitExtension last).1 ++ "." ++ ext).toList := by
    have hstem := slash_notMem_splitExtension (hslash last (by simp))
    simp [String.toList_append, hstem, hext]
  have hwith : withExtension ext p =
      assemble (cut p).1 (before ++ [(splitExtension last).1 ++ "." ++ ext]) := by
    rw [withExtension, h]
    simp only [hps, List.dropLast_concat]
  rw [hwith, components_assemble, hcomponents, List.filterMap_append,
    List.filterMap_cons_some (ofPiece?_of_length hnew), List.filterMap_nil, ← List.append_assoc,
    List.dropLast_concat]
  · intro s hs
    rcases List.mem_append.mp hs with hs | hs
    · exact hslash s (List.mem_append_left _ hs)
    · exact List.mem_singleton.mp hs ▸ hnewSlash
  · intro hplain
    have hhead : ∀ s, s.length ≤ 2 →
        (before ++ [(splitExtension last).1 ++ "." ++ ext]).head? = some s →
          (cut p).2.head? = some s := by
      intro s hlen' hs
      cases before with
      | nil =>
        obtain rfl : (splitExtension last).1 ++ "." ++ ext = s := by simpa using hs
        omega
      | cons first before => exact head?_of_head?_trimFillers (hps ▸ hs)
    exact ⟨fun hs => (head?_of_plain hplain).1 (hhead "" (by decide) hs),
      fun hs => (head?_of_plain hplain).2 (hhead "." (by decide) hs)⟩

/-- Another extension neither adds nor removes a component. -/
theorem length_components_withExtension {ext : String} (hlen : 1 < ext.length)
    (hext : '/' ∉ ext.toList) (p : String) :
    (components (withExtension ext p)).length = (components p).length := by
  cases h : fileName? p with
  | none => rw [withExtension, h]
  | some name =>
    have hne : components p ≠ [] := by
      intro hnil
      rw [fileName?, hnil] at h
      exact absurd h nofun
    have hpos : 0 < (components p).length := List.length_pos_of_ne_nil hne
    rw [components_withExtension hlen hext h, List.length_append, List.length_dropLast,
      List.length_singleton]
    omega

/-- A text that can stand for one entry of a directory. -/
def IsName (s : String) : Prop := '/' ∉ s.toList ∧ ofPiece? s = some (.name s)

instance (s : String) : Decidable (IsName s) := inferInstanceAs (Decidable (_ ∧ _))

theorem IsName.components {s : String} (h : IsName s) :
    (cut s).1 = .plain ∧ Path.components s = [.name s] := by
  have hpieces : pieces s = [s] := pieces_of_slash_notMem h.1
  have hr : isAbsolute s ≠ true := by
    intro hr
    obtain ⟨rest, hs⟩ := pieces_of_isAbsolute hr
    obtain ⟨rfl, -⟩ := List.cons.inj (hpieces.symm.trans hs)
    exact absurd h.2 (by simp)
  have hpoint : s ≠ "." := by
    rintro rfl
    exact absurd h.2 (by simp)
  have hstart : (cut s).1 = .plain := by
    rw [cut_fst, if_neg hr, hpieces, if_neg (by simpa using hpoint)]
  exact ⟨hstart, by rw [components_eq, hstart, hpieces, List.filterMap_cons_some h.2]; rfl⟩

/-- The path of an entry below a directory. -/
theorem components_foldl_join {names : List String} (h : ∀ s ∈ names, IsName s) (base : String) :
    components (names.foldl join base) = components base ++ names.map .name := by
  induction names generalizing base with
  | nil => simp
  | cons s names ih =>
    obtain ⟨hplain, hs⟩ := (h s List.mem_cons_self).components
    rw [List.foldl_cons, ih fun t ht => h t (List.mem_cons_of_mem s ht),
      components_join base hplain, hs, List.append_assoc]
    rfl

/-- The path of an entry below a directory tells the names that lead to it. -/
theorem eq_of_components_foldl_join {names names' : List String} (h : ∀ s ∈ names, IsName s)
    (h' : ∀ s ∈ names', IsName s)
    (he : components (names.foldl join base) = components (names'.foldl join base)) :
    names = names' := by
  rw [components_foldl_join h, components_foldl_join h', List.append_cancel_left_eq] at he
  have hinj : Function.Injective Component.name := fun _ _ => Component.name.inj
  exact hinj.list_map he

section Names

variable {s dir : String}

/-- A path that starts with a name. -/
theorem cut_of_pieces {p : String} {rest : List String} (h : IsName s) (hp : pieces p = s :: rest) :
    cut p = (.plain, s :: rest) := by
  unfold cut
  rw [hp]
  split
  next hs =>
    obtain ⟨rfl, -⟩ := List.cons.inj hs
    exact absurd h.2 (by decide)
  next hs =>
    obtain ⟨rfl, -⟩ := List.cons.inj hs
    exact absurd h.2 (by decide)
  · rfl

theorem IsName.not_isFiller (h : IsName s) : isFiller s = false := by
  rw [isFiller, h.2]
  rfl

theorem IsName.cut (h : IsName s) : cut s = (.plain, [s]) :=
  cut_of_pieces h (pieces_of_slash_notMem h.1)

theorem IsName.parent? (h : IsName s) : parent? s = some "" := by
  simp [Path.parent?, h.cut, trimFillers, h.not_isFiller, assemble, slashed]

theorem IsName.withExtension (h : IsName s) (ext : String) :
    withExtension ext s = (splitExtension s).1 ++ "." ++ ext := by
  have hfile : fileName? s = some s := by
    rw [fileName?_eq_some, h.components.2, List.getLast?_singleton]
  simp [Path.withExtension, hfile, h.cut, trimFillers, h.not_isFiller, assemble, slashed]

/-- The path of an entry of a directory. -/
theorem IsName.join (h : IsName s) (hd : IsName dir) : join dir s = dir ++ "/" ++ s := by
  have hslash : dir.toList.getLast? ≠ some '/' := fun hl => hd.1 (List.mem_of_getLast? hl)
  have hempty : dir ≠ "" := by
    rintro rfl
    exact absurd hd.2 (by decide)
  simp [Path.join, isAbsolute_of_plain h.components.1, hslash, hempty]

theorem IsName.cut_below (h : IsName s) (hd : IsName dir) :
    Path.cut (dir ++ "/" ++ s) = (.plain, [dir, s]) := by
  refine cut_of_pieces hd ?_
  rw [pieces_slash, pieces_of_slash_notMem hd.1, pieces_of_slash_notMem h.1, List.singleton_append]

theorem IsName.components_below (h : IsName s) (hd : IsName dir) :
    Path.components (dir ++ "/" ++ s) = [.name dir, .name s] := by
  simp [Path.components, h.cut_below hd, Start.components, h.2, hd.2]

/-- What leads from a directory to an entry of it is the name of the entry. -/
theorem IsName.stripBase? (h : IsName s) (hd : IsName dir) :
    stripBase? dir (dir ++ "/" ++ s) = some s := by
  simp [Path.stripBase?, h.cut_below hd, h.components_below hd, hd.components.2, dropNames,
    h.not_isFiller, hd.not_isFiller, trimFillers, slashed, Start.components]

end Names

end Cascade.Path
