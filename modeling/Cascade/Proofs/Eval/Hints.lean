import Cascade.Eval.Instance
import Cascade.Proofs.Value
/-!
What the hints of a property say about it. Every property has a value, an error, or the hint that it
lacks a value; the other hints are there exactly when the value calls for them. The evaluation of an
instance adds such properties and takes none away.
-/
namespace Cascade

theorem isEnvelope_iff {s : String} : isEnvelope s = true ↔ ∃ t, s = "ENC[" ++ t ++ "]" := by
  rw [isEnvelope, Bool.and_eq_true, List.isPrefixOf_iff_prefix, beq_iff_eq]
  constructor
  · rintro ⟨⟨t, ht⟩, hlast⟩
    rcases List.eq_nil_or_concat t with rfl | ⟨t, c, rfl⟩
    · rw [← ht] at hlast
      simp at hlast
    · rw [List.concat_eq_append, ← List.append_assoc] at ht
      rw [← ht, List.getLast?_concat] at hlast
      obtain rfl := Option.some.inj hlast
      refine ⟨String.ofList t, String.toList_inj.mp ?_⟩
      rw [← ht]
      simp
  · rintro ⟨t, rfl⟩
    rw [String.toList_append, String.toList_append]
    exact ⟨⟨_, (List.append_assoc _ _ _).symm⟩, List.getLast?_concat⟩

namespace Property

structure Sound (p : Property) : Prop where
  settled : p.value.isSome ∨ p.error.isSome ∨ Hint.missingValue ∈ p.hints
  mismatch (expected actual : String) : .typeMismatch expected actual ∈ p.hints ↔
    ∃ t v, p.type = some t ∧ p.value = some v ∧ t.accepts v = false ∧
      expected = t.display ∧ actual = v.typeName
  encrypted : .encrypted ∈ p.hints ↔ ∃ s, p.value = some (.string ("ENC[" ++ s ++ "]"))

variable {p : Property} {v : Value}

theorem mem_typeHints {type : Option TypeRef} {h : Hint} : h ∈ typeHints type v ↔
    ∃ t, type = some t ∧ t.accepts v = false ∧ h = .typeMismatch t.display v.typeName := by
  cases type with
  | none => simp [typeHints]
  | some t => cases ha : t.accepts v <;> simp [typeHints, ha]

theorem mem_envelopeHints {h : Hint} :
    h ∈ envelopeHints v ↔ h = .encrypted ∧ ∃ s, v = .string ("ENC[" ++ s ++ "]") := by
  cases v with
  | string s =>
    by_cases hs : isEnvelope s
    · obtain ⟨t, rfl⟩ := isEnvelope_iff.mp hs
      simp [envelopeHints, Value.asString?, hs]
    · have hnot : ∀ t, s ≠ "ENC[" ++ t ++ "]" := fun t ht => hs (isEnvelope_iff.mpr ⟨t, ht⟩)
      simp [envelopeHints, Value.asString?, hs, hnot]
  | _ => simp [envelopeHints, Value.asString?]

/-- A value that has had no hints gets those that it calls for. -/
theorem Sound.check_of_value (hvalue : p.value = some v) (hhints : p.hints = []) :
    p.check.Sound := by
  have hcheck : p.check = { p with hints := typeHints p.type v ++ envelopeHints v } := by
    rw [check, hvalue, hhints]
    rfl
  rw [hcheck]
  refine ⟨.inl (by simp [hvalue]), fun expected actual => ?_, ?_⟩
  · simp only [List.mem_append, mem_typeHints, mem_envelopeHints, hvalue, Hint.typeMismatch.injEq]
    simp
  · simp [mem_typeHints, mem_envelopeHints, hvalue]

/-- Without a value there is at most the hint that it is missing. -/
theorem Sound.of_none (hvalue : p.value = none)
    (hhints : p.hints = [] ∧ p.error.isSome ∨ p.hints = [.missingValue]) : p.Sound := by
  rcases hhints with ⟨hhints, herror⟩ | hhints
  · exact ⟨.inr (.inl herror), by simp [hvalue, hhints], by simp [hvalue, hhints]⟩
  · exact ⟨.inr (.inr (by simp [hhints])), by simp [hvalue, hhints], by simp [hvalue, hhints]⟩

theorem Sound.check_of_none (hvalue : p.value = none)
    (hhints : p.hints = [] ∧ p.error.isSome ∨ p.hints = [.missingValue]) : p.check.Sound := by
  rw [check, hvalue]
  exact .of_none hvalue hhints

end Property

namespace Instance

/-- What an evaluation may do to an instance: properties that are set are sound, and none goes. -/
structure Grows (i i' : Instance) : Prop where
  kept {name : String} : (i.properties.get? name).isSome → (i'.properties.get? name).isSome
  sound {name : String} {p : Property} : i'.properties.get? name = some p →
    i.properties.get? name = some p ∨ p.Sound

variable {i i' i'' : Instance}

namespace Grows

theorem of_properties (h : i'.properties = i.properties) : i.Grows i' :=
  ⟨fun hi => h ▸ hi, fun hp => .inl (h ▸ hp)⟩

theorem refl (i : Instance) : i.Grows i := .of_properties rfl

theorem trans (h : i.Grows i') (h' : i'.Grows i'') : i.Grows i'' where
  kept hi := h'.kept (h.kept hi)
  sound hp := (h'.sound hp).elim h.sound .inr

/-- A sound property is set. -/
theorem setProperty (i : Instance) (name : String) {p : Property} (hp : p.Sound) :
    i.Grows { i with properties := i.properties.set name p } where
  kept hi := by
    rw [Table.get?_set]
    split
    · rfl
    · exact hi
  sound hq := by
    rw [Table.get?_set] at hq
    split at hq
    · exact .inr (Option.some.inj hq ▸ hp)
    · exact .inl hq

end Grows

end Instance

end Cascade
