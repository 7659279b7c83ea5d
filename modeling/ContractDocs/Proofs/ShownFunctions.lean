import ContractDocs.Page
import ContractDocs.Proofs.Levels
import Mathlib.Data.List.FinRange

/-! The functions that a page shows. One part of the page has the first declaration that counts as a
constructor, the other part has all functions that do not. A unit with several contracts may have
more constructors than that, and these are shown nowhere. -/

namespace ContractDocs

/-- A part of a page: blocks under a title, and nothing without blocks. -/
def titled (title : String) (blocks : List String) : String :=
  if blocks.isEmpty then "" else title ++ "\n\n" ++ "\n\n".intercalate blocks

namespace Contract

/-- Where the declaration stands that the page shows as the constructor. -/
def constructorPlaces (c : Contract) : List (Fin c.nearDeclarations.length) :=
  (c.nearDeclarations.findFinIdx? Node.constructs).toList

def functionPlaces (c : Contract) : List (Fin c.nearDeclarations.length) :=
  (List.finRange c.nearDeclarations.length).filter fun i =>
    c.nearDeclarations[i].is .functionDefinition && !c.nearDeclarations[i].constructs

/-- Each function near the top is shown once: a constructor as such, any other one among the
functions. -/
def ShowsEachFunction (c : Contract) : Prop :=
  ∀ i : Fin c.nearDeclarations.length, c.nearDeclarations[i].is .functionDefinition = true →
    (c.constructorPlaces ++ c.functionPlaces).count i = 1 ∧
      (c.nearDeclarations[i].constructs = true → i ∈ c.constructorPlaces) ∧
      (c.nearDeclarations[i].constructs = false → i ∈ c.functionPlaces)

variable {c : Contract}

theorem map_constructorPlaces (c : Contract) :
    c.constructorPlaces.map (c.nearDeclarations[·]) = c.constructor?.toList := by
  rw [constructor?, declarationWhere?, List.find?_eq_map_findFinIdx?_getElem, constructorPlaces]
  cases c.nearDeclarations.findFinIdx? Node.constructs with
  | none => rfl
  | some i => rfl

theorem map_functionPlaces (c : Contract) :
    c.functionPlaces.map (c.nearDeclarations[·]) = c.plainFunctions := by
  have hplaces : (List.finRange c.nearDeclarations.length).map (c.nearDeclarations[·]) =
      c.nearDeclarations := List.map_get_finRange c.nearDeclarations
  have hplain : c.plainFunctions = c.nearDeclarations.filter fun n =>
      n.is .functionDefinition && !n.constructs := by
    simp only [plainFunctions, functions, declarationsOfKind, declarationsWhere, List.filter_filter,
      Bool.and_comm]
  rw [hplain]
  conv_rhs => rw [← hplaces]
  rw [List.filter_map]
  rfl

theorem constructorSection_eq (site : Site) (c : Contract) :
    c.constructorSection site =
      titled "## Constructor" (c.constructor?.toList.map (·.functionBlock site)) := by
  unfold constructorSection
  cases c.constructor? with
  | none => rfl
  | some n => simp [titled]

theorem functionsSection_eq (site : Site) (c : Contract) :
    c.functionsSection site =
      titled "## Functions" (c.plainFunctions.map (·.functionBlock site)) := by
  unfold functionsSection
  cases c.plainFunctions.map (·.functionBlock site) with
  | nil => rfl
  | cons block blocks => rfl

theorem mem_constructorPlaces {i : Fin c.nearDeclarations.length} :
    i ∈ c.constructorPlaces ↔ c.nearDeclarations[i].constructs = true ∧
      ∀ k < i, c.nearDeclarations[k].constructs = false := by
  simp only [constructorPlaces, Option.mem_toList, List.findFinIdx?_eq_some_iff,
    Bool.not_eq_true]

theorem mem_functionPlaces {i : Fin c.nearDeclarations.length} :
    i ∈ c.functionPlaces ↔ c.nearDeclarations[i].is .functionDefinition = true ∧
      c.nearDeclarations[i].constructs = false := by
  simp [functionPlaces]

theorem pairwise_functionPlaces (c : Contract) : c.functionPlaces.Pairwise (· < ·) :=
  (List.pairwise_lt_finRange _).filter _

theorem nodup_places (c : Contract) : (c.constructorPlaces ++ c.functionPlaces).Nodup := by
  rw [List.nodup_append]
  refine ⟨?_, (List.nodup_finRange _).filter _, ?_⟩
  · cases hfirst : c.nearDeclarations.findFinIdx? Node.constructs with
    | none => simp [constructorPlaces, hfirst]
    | some i => simp [constructorPlaces, hfirst]
  -- what is shown as the constructor is none of the others
  · rintro i hi k hk rfl
    have hconstructs := (mem_constructorPlaces.mp hi).1
    rw [(mem_functionPlaces.mp hk).2] at hconstructs
    exact Bool.false_ne_true hconstructs

theorem count_places {i : Fin c.nearDeclarations.length}
    (h : c.nearDeclarations[i].is .functionDefinition = true) :
    (c.constructorPlaces ++ c.functionPlaces).count i =
      if c.nearDeclarations[i].constructs = true ∧
        ∃ k < i, c.nearDeclarations[k].constructs = true then 0 else 1 := by
  have hshown : i ∈ c.constructorPlaces ++ c.functionPlaces ↔
      ¬ (c.nearDeclarations[i].constructs = true ∧
        ∃ k < i, c.nearDeclarations[k].constructs = true) := by
    rw [List.mem_append, mem_constructorPlaces, mem_functionPlaces, and_iff_right h]
    cases c.nearDeclarations[i].constructs with
    | false => simp
    | true => simp
  rw [(nodup_places c).count]
  simp only [hshown, ite_not]

theorem showsEachFunction_iff :
    c.ShowsEachFunction ↔ ∀ i k : Fin c.nearDeclarations.length,
      c.nearDeclarations[i].is .functionDefinition = true →
      c.nearDeclarations[i].constructs = true → c.nearDeclarations[k].constructs = true →
      i ≤ k := by
  constructor
  · intro h i k hfunction hi hk
    by_contra hlt
    have hone := (h i hfunction).1
    rw [count_places hfunction, if_pos ⟨hi, k, not_le.mp hlt, hk⟩] at hone
    exact Nat.zero_ne_one hone
  · intro h i hfunction
    have hfirst : c.nearDeclarations[i].constructs = true →
        ∀ k < i, c.nearDeclarations[k].constructs = false := by
      intro hi k hlt
      by_contra hk
      exact absurd (h i k hfunction hi (by simpa using hk)) (not_le.mpr hlt)
    refine ⟨?_, fun hi => mem_constructorPlaces.mpr ⟨hi, hfirst hi⟩,
      fun hi => mem_functionPlaces.mpr ⟨hfunction, hi⟩⟩
    rw [count_places hfunction, if_neg]
    rintro ⟨hi, k, hlt, hk⟩
    rw [hfirst hi k hlt] at hk
    exact Bool.false_ne_true hk

/-- Of the declarations down to the members of definitions, level by level, the page shows every
function that is no constructor, in this order, and the first constructor. So a function is missing
just when it is a constructor and another one stands before it, and no function is missing just when
there is no such pair. -/
theorem functions_shown_iff (site : Site) (c : Contract) :
    c.nearDeclarations = c.declarations ++ c.declarations.flatMap Node.children ∧
      (site.values c).lookup "Constructor" = some (titled "## Constructor"
        (c.constructorPlaces.map fun i => c.nearDeclarations[i].functionBlock site)) ∧
      (site.values c).lookup "Functions" = some (titled "## Functions"
        (c.functionPlaces.map fun i => c.nearDeclarations[i].functionBlock site)) ∧
      (c.functionPlaces.Pairwise (· < ·) ∧
        ∀ i, i ∈ c.functionPlaces ↔ c.nearDeclarations[i].is .functionDefinition = true ∧
          c.nearDeclarations[i].constructs = false) ∧
      (∀ i : Fin c.nearDeclarations.length, c.nearDeclarations[i].is .functionDefinition = true →
        (c.constructorPlaces ++ c.functionPlaces).count i =
          if c.nearDeclarations[i].constructs = true ∧
            ∃ k < i, c.nearDeclarations[k].constructs = true then 0 else 1) ∧
      (c.ShowsEachFunction ↔ ∀ i k : Fin c.nearDeclarations.length,
        c.nearDeclarations[i].is .functionDefinition = true →
        c.nearDeclarations[i].constructs = true → c.nearDeclarations[k].constructs = true →
        i ≤ k) := by
  have hconstructor : (site.values c).lookup "Constructor" = some (c.constructorSection site) := rfl
  have hfunctions : (site.values c).lookup "Functions" = some (c.functionsSection site) := rfl
  refine ⟨nearDeclarations_eq c, ?_, ?_, ⟨pairwise_functionPlaces c, fun _ => mem_functionPlaces⟩,
    fun _ => count_places, showsEachFunction_iff⟩
  · rw [hconstructor, constructorSection_eq, ← map_constructorPlaces, List.map_map]
    rfl
  · rw [hfunctions, functionsSection_eq, ← map_functionPlaces, List.map_map]
    rfl

/-- A unit with these definitions, each with the ids and kinds of its functions. -/
def unitWith (definitions : List (String × List (Int × String))) : Contract where
  contractName := "Vault"
  ast := {
    nodes := some (definitions.map fun (name, functions) =>
      { nodeType := some .contractDefinition
        name := some name
        contractKind := some "contract"
        nodes := some (functions.map fun (id, kind) =>
          { id := some id, nodeType := some .functionDefinition, kind := some kind }) }) }

def oneConstructor : Contract :=
  unitWith [("Base", [(1, "function")]), ("Vault", [(2, "constructor"), (3, "fallback")])]

theorem functions_shown_oneConstructor :
    oneConstructor.constructorPlaces.map (·.val) = [3] ∧
      oneConstructor.functionPlaces.map (·.val) = [2, 4] ∧
      (∀ i k : Fin oneConstructor.nearDeclarations.length,
        oneConstructor.nearDeclarations[i].is .functionDefinition = true →
        oneConstructor.nearDeclarations[i].constructs = true →
        oneConstructor.nearDeclarations[k].constructs = true → i ≤ k) ∧
      oneConstructor.ShowsEachFunction := by
  have hfirst : ∀ i k : Fin oneConstructor.nearDeclarations.length,
      oneConstructor.nearDeclarations[i].is .functionDefinition = true →
      oneConstructor.nearDeclarations[i].constructs = true →
      oneConstructor.nearDeclarations[k].constructs = true → i ≤ k := by decide +kernel
  obtain ⟨_, _, _, _, _, hshows⟩ := functions_shown_iff ⟨[oneConstructor], {}, ""⟩ oneConstructor
  exact ⟨by decide +kernel, by decide +kernel, hfirst, hshows.mpr hfirst⟩

/-- The page of `Vault` shows the constructor of `Base` and not its own. -/
def twoConstructors : Contract :=
  unitWith [("Base", [(1, "constructor")]), ("Vault", [(2, "constructor"), (3, "fallback")])]

theorem constructor_missing_twoConstructors :
    twoConstructors.functions.map (·.id) = [some 1, some 2, some 3] ∧
      (twoConstructors.constructor?.toList ++ twoConstructors.plainFunctions).map (·.id) =
        [some 1, some 3] ∧
      ¬ twoConstructors.ShowsEachFunction := by
  refine ⟨by decide +kernel, by decide +kernel, fun h => ?_⟩
  have hfirst := showsEachFunction_iff.mp h
  revert hfirst
  decide +kernel

end Contract

end ContractDocs
