import ContractDocs.Proofs.OverrideAnchors
import ContractDocs.Proofs.TemplateFilling
import ContractDocs.Proofs.Texts
import ContractDocs.Settings.Decode

/-! Settings that come from a text, and the lines of links on the pages. Every template that such
settings have is one that links can be filled into, so no line loses its links. -/

namespace ContractDocs

/-- A message with a value in every place for it. -/
inductive Fills (value : String) : String → String → Prop
  | plain {text : String} : ¬ Text.Holds text "\x7b0\x7d" → Fills value text text
  | place {before template text : String} : ¬ Text.Holds before "\x7b0\x7d" →
      Fills value template text →
      Fills value (before ++ "\x7b0\x7d" ++ template) (before ++ value ++ text)

theorem apart_messagePlaceholder : Text.Apart [messagePlaceholder.toList] where
  ne_nil := by decide
  eq_of_prefix := by
    intro p hp q hq a b rest heq hb hpre
    obtain rfl := List.mem_singleton.mp hp
    obtain rfl := List.mem_singleton.mp hq
    -- a place starts with a brace, and there is none further inside
    cases a with
    | nil => exact ⟨rfl, rfl⟩
    | cons c a =>
      have hinner : '\x7b' ∉ b := by
        have htail : ['0', '\x7d'] = a ++ b := (List.cons.inj heq).2
        intro hmem
        have hbrace : '\x7b' ∈ ['0', '\x7d'] := htail ▸ List.mem_append_right a hmem
        exact absurd hbrace (by decide)
      exact absurd hpre (not_prefix_of_notMem hb hinner rest)

theorem fillMessage_around (before after value : String) :
    fillMessage (before ++ messagePlaceholder ++ after) value =
      fillMessage before value ++ value ++ fillMessage after value := by
  rw [← String.toList_inj]
  simpa [fillMessage, Text.replace] using
    apart_messagePlaceholder.replaceFrom_around value.toList before.toList after.toList

theorem fillMessage_of_not_holds {template : String} (value : String)
    (h : ¬ Text.Holds template messagePlaceholder) : fillMessage template value = template := by
  rw [Text.holds_iff] at h
  rw [fillMessage, Text.replace, Text.replaceFrom_of_not_infix _ h, String.ofList_toList]

theorem fills_fillMessage (template value : String) :
    Fills value template (fillMessage template value) := by
  induction hlen : template.length using Nat.strongRecOn generalizing template with
  | ind k ih =>
    by_cases h : Text.Holds template messagePlaceholder
    · rw [Text.holds_iff] at h
      obtain ⟨before, after, heq, hbefore⟩ := Text.exists_first_place (by decide) h
      have htemplate : template =
          String.ofList before ++ messagePlaceholder ++ String.ofList after := by
        rw [← String.toList_inj, heq]
        simp
      have hplain : ¬ Text.Holds (String.ofList before) messagePlaceholder := by
        rwa [Text.holds_iff, String.toList_ofList]
      have hshort : (String.ofList after).length < k := by
        have hpos : 0 < messagePlaceholder.length := by decide
        rw [← hlen, htemplate, String.length_append, String.length_append]
        omega
      rw [htemplate, fillMessage_around, fillMessage_of_not_holds value hplain]
      exact .place hplain (ih _ hshort _ rfl)
    · rw [fillMessage_of_not_holds value h]
      exact .plain h

theorem holds_fillMessage {template : String} (value : String)
    (h : Text.Holds template messagePlaceholder) :
    Text.Holds (fillMessage template value) value := by
  obtain ⟨before, after, rfl⟩ := h
  exact ⟨_, _, fillMessage_around before after value⟩

/-- A line that is empty without links and has all of them in one piece otherwise. -/
structure LinkLine (line separator : String) (links : List String) : Prop where
  eq_empty_iff : line = "" ↔ links = []
  holds : links ≠ [] → Text.Holds line (separator.intercalate links)

theorem link_ne_empty (label target : String) : link label target ≠ "" := by
  simp [link]

theorem linkLine_nil (separator : String) : LinkLine "" separator [] :=
  ⟨by simp, by simp⟩

theorem linkLine_fillMessage {template : String} (front back separator : String)
    {first : String} (more : List String) (h : Text.Holds template messagePlaceholder)
    (hfirst : first ≠ "") :
    LinkLine (front ++ fillMessage template (separator.intercalate (first :: more)) ++ back)
      separator (first :: more) := by
  have hholds := (holds_fillMessage (separator.intercalate (first :: more)) h).append front back
  refine ⟨?_, fun _ => hholds⟩
  obtain ⟨before, after, heq⟩ := hholds
  have hlist : separator.intercalate (first :: more) ≠ "" := by
    cases more <;> simp [hfirst]
  simp [heq, hlist]

theorem Contract.linkLine_extendsLine {messages : MessageSettings}
    (h : Text.Holds messages.extending messagePlaceholder) (mode : LookupMode)
    (contracts : List Contract) (c : Contract) :
    LinkLine (c.extendsLine messages mode contracts) messages.listSeparator
      ((c.baseLabels mode contracts).map pageLink) := by
  unfold Contract.extendsLine
  cases c.baseLabels mode contracts with
  | nil => exact linkLine_nil _
  | cons name more =>
    exact linkLine_fillMessage "**" "**" messages.listSeparator (more.map pageLink) h
      (link_ne_empty name _)

namespace Settings

/-- Links can be filled into each template, and no path is empty. -/
structure Usable (s : Settings) : Prop where
  overridden : Text.Holds s.messages.overridden messagePlaceholder
  extending : Text.Holds s.messages.extending messagePlaceholder
  derivedContracts : Text.Holds s.messages.derivedContracts messagePlaceholder
  buildDir : s.output.buildDir ≠ ⟨""⟩
  template : s.output.template ≠ some ⟨""⟩
  logFile : s.logging.file ≠ some ⟨""⟩

theorem usable_default : Usable {} where
  overridden := Text.contains_iff.mp (by decide)
  extending := Text.contains_iff.mp (by decide)
  derivedContracts := Text.contains_iff.mp (by decide)
  buildDir := by decide
  template := by decide
  logFile := by decide

namespace Usable

variable {s : Settings} (h : s.Usable) (contracts : List Contract)

include h

theorem overriddenLine (n : Node) :
    LinkLine (n.overriddenLine s.messages contracts) s.messages.referenceSeparator
      ((n.overriders contracts).map Located.link) := by
  unfold Node.overriddenLine
  cases n.overriders contracts with
  | nil => exact linkLine_nil _
  | cons l more =>
    have hline := linkLine_fillMessage s.messages.overriddenMarker "" s.messages.referenceSeparator
      (more.map Located.link) h.overridden (link_ne_empty l.label l.anchor)
    rwa [String.append_empty] at hline

theorem extendsLine (mode : LookupMode) (c : Contract) :
    LinkLine (c.extendsLine s.messages mode contracts) s.messages.listSeparator
      ((c.baseLabels mode contracts).map pageLink) :=
  c.linkLine_extendsLine h.extending mode contracts

theorem derivedLine (c : Contract) :
    LinkLine (c.derivedLine s.messages contracts) s.messages.listSeparator
      ((c.derivedContracts contracts).map fun d => link d.contractName d.pageName) := by
  unfold Contract.derivedLine
  cases c.derivedContracts contracts with
  | nil => exact linkLine_nil _
  | cons d more =>
    exact linkLine_fillMessage "**" "**." s.messages.listSeparator _ h.derivedContracts
      (link_ne_empty d.contractName d.pageName)

end Usable

end Settings

end ContractDocs
