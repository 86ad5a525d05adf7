import ConfigLog.Text.Blank
import ConfigLog.Yaml.Print

set_option autoImplicit false

/-! # Printed collections are not blank

A writer only adds to the text so far (`Adds`), and a collection is not written without a dash, a
colon or a bracket. So the YAML text of a sequence or a mapping is never blank
(`not_blank_of_print`).
-/

namespace ConfigLog.Yaml

/-! ## Writers only add to the text -/

/-- The characters of the first text are all in the second one. -/
def Adds (o o' : Output) : Prop := o.text.toList ⊆ o'.text.toList

theorem Adds.refl (o : Output) : Adds o o := List.Subset.refl _

theorem Adds.trans {o₁ o₂ o₃ : Output} (h : Adds o₁ o₂) (h' : Adds o₂ o₃) : Adds o₁ o₃ :=
  List.Subset.trans h h'

namespace Output

theorem adds_put (o : Output) (cs : List Char) : Adds o (o.put cs) := by
  simp [Adds, put]

theorem adds_putBreak (o : Output) (c : Char) : Adds o (o.putBreak c) := by
  simp [Adds, putBreak]

theorem adds_indentTo (o : Output) (indent : Nat) : Adds o (o.indentTo indent) := by
  unfold indentTo
  split
  · exact (adds_putBreak o '\n').trans (adds_put _ _)
  · exact adds_put o _

theorem adds_space (o : Output) : Adds o o.space := by
  unfold space
  split
  · exact .refl o
  · exact adds_put o _

theorem adds_blockIndicator (o : Output) (c : Char) : Adds o (o.blockIndicator c) :=
  (adds_space o).trans (adds_put o.space [c])

theorem adds_token (o : Output) (cs : List Char) : Adds o (o.token cs) := adds_put o cs

/-- An indentation that stands only in front of the first character of a line. -/
theorem adds_indentIf (o : Output) (broken : Bool) (indent : Nat) :
    Adds o (if broken then o.indentTo indent else o) := by
  cases broken with
  | true => exact adds_indentTo o indent
  | false => exact .refl o

theorem adds_singleQuoted (indent : Nat) (cs : List Char) :
    ∀ (broken : Bool) (o : Output), Adds o (singleQuoted indent broken cs o) := by
  induction cs with
  | nil => exact fun broken o => adds_indentIf o broken indent
  | cons c r ih =>
      intro broken o
      unfold singleQuoted
      split
      · have hfirst : Adds o (if !broken && c == '\n' then o.putBreak '\n' else o) := by
          split
          · exact adds_putBreak o '\n'
          · exact .refl o
        refine Adds.trans ?_ (ih _ _)
        exact hfirst.trans (adds_putBreak _ c)
      · split
        · exact (adds_put o [c]).trans (ih _ _)
        · refine Adds.trans ?_ (ih _ _)
          exact (adds_indentIf o broken indent).trans (adds_put _ _)

theorem adds_literalLines (indent : Nat) (cs : List Char) :
    ∀ (broken : Bool) (o : Output), Adds o (literalLines indent broken cs o) := by
  induction cs with
  | nil => exact fun broken o => .refl o
  | cons c r ih =>
      intro broken o
      unfold literalLines
      split
      · refine Adds.trans ?_ (ih _ _)
        exact adds_putBreak o c
      · refine Adds.trans ?_ (ih _ _)
        exact (adds_indentIf o broken indent).trans (adds_put _ [c])

theorem adds_scalar (o : Output) (style : Style) (indent : Nat) (cs : List Char) :
    Adds o (o.scalar style indent cs) := by
  have hspace := adds_space o
  cases style with
  | plain =>
      have hfirst : Adds o (if cs.isEmpty then o else o.space) := by
        split
        · exact .refl o
        · exact hspace
      exact hfirst.trans (adds_token _ cs)
  | single =>
      have hopen := hspace.trans (adds_token o.space ['\''])
      exact (hopen.trans (adds_singleQuoted indent cs false _)).trans (adds_token _ ['\''])
  | double => exact hspace.trans (adds_token o.space _)
  | literal =>
      have hheader := hspace.trans (adds_token o.space (literalHeader cs))
      refine Adds.trans ?_ (adds_literalLines indent cs true _)
      exact hheader.trans (adds_putBreak _ '\n')

theorem adds_tag (o : Output) (tag : Option String) : Adds o (o.tag tag) := by
  cases tag with
  | none => exact .refl o
  | some name => exact (adds_space o).trans (adds_token o.space _)

end Output

open Output

theorem adds_writeScalar (p : Place) (tag : Option String) (s : String) (wanted : Style)
    (o : Output) : Adds o (writeScalar p tag s wanted o) :=
  (adds_tag o tag).trans (adds_scalar (o.tag tag) _ _ _)

theorem mem_token (o : Output) (c : Char) : c ∈ (o.token [c]).text.toList := by
  simp [token, put]

theorem mem_blockIndicator (o : Output) (c : Char) : c ∈ (o.blockIndicator c).text.toList := by
  simp [blockIndicator, put]

/-- An item is written as a dash and its node, and then come the other items. -/
theorem writeItems_cons {indent : Nat} {item : Node} {r : List Node} {o o' : Output}
    (h : writeItems indent (item :: r) o = some o') :
    ∃ o₁ o₂, Adds o o₁ ∧ '-' ∈ o₁.text.toList ∧
      writeNode ⟨some indent, false, false⟩ none item o₁ = some o₂ ∧
      writeItems indent r o₂ = some o' := by
  rw [writeItems] at h
  obtain ⟨o₂, hitem, hrest⟩ := Option.bind_eq_some_iff.1 h
  have hdash := (adds_indentTo o indent).trans (adds_blockIndicator _ '-')
  exact ⟨_, o₂, hdash, mem_blockIndicator _ '-', hitem, hrest⟩

/-- An entry is written as its key, a colon and its value, and then come the other entries. -/
theorem writeEntries_cons {indent : Nat} {key value : Node} {r : List (Node × Node)}
    {o o' : Output} (h : writeEntries indent ((key, value) :: r) o = some o') :
    ∃ place o₁ o₂ o₃ o₄, Adds o o₁ ∧ writeNode place none key o₁ = some o₂ ∧
      Adds o₂ o₃ ∧ ':' ∈ o₃.text.toList ∧
      writeNode ⟨some indent, true, false⟩ none value o₃ = some o₄ ∧
      writeEntries indent r o₄ = some o' := by
  have hstart := adds_indentTo o indent
  rw [writeEntries] at h
  split at h
  · obtain ⟨o₂, hkey, h⟩ := Option.bind_eq_some_iff.1 h
    obtain ⟨o₃, hcolon, h⟩ := Option.bind_eq_some_iff.1 h
    obtain rfl := Option.some.inj hcolon
    obtain ⟨o₄, hvalue, hrest⟩ := Option.bind_eq_some_iff.1 h
    exact ⟨_, _, o₂, _, o₄, hstart, hkey, adds_token o₂ [':'], mem_token o₂ ':', hvalue, hrest⟩
  · obtain ⟨o₂, hkey, h⟩ := Option.bind_eq_some_iff.1 h
    obtain ⟨o₃, hcolon, h⟩ := Option.bind_eq_some_iff.1 h
    obtain rfl := Option.some.inj hcolon
    obtain ⟨o₄, hvalue, hrest⟩ := Option.bind_eq_some_iff.1 h
    have hmark := hstart.trans (adds_blockIndicator _ '?')
    have hbreak := (adds_indentTo o₂ indent).trans (adds_blockIndicator _ ':')
    exact ⟨_, _, o₂, _, o₄, hmark, hkey, hbreak, mem_blockIndicator _ ':', hvalue, hrest⟩

mutual

theorem adds_writeNode {p : Place} {tag : Option String} {n : Node} {o o' : Output}
    (h : writeNode p tag n o = some o') : Adds o o' := by
  cases n with
  | tagged name content =>
      rw [writeNode] at h
      split at h
      · cases h
      · exact adds_writeNode h
  | sequence items =>
      rw [writeNode] at h
      split at h
      · rw [← Option.some.inj h]
        exact (adds_tag o tag).trans ((adds_space _).trans (adds_token _ _))
      · exact (adds_tag o tag).trans (adds_writeItems h)
  | mapping entries =>
      rw [writeNode] at h
      split at h
      · rw [← Option.some.inj h]
        exact (adds_tag o tag).trans ((adds_space _).trans (adds_token _ _))
      · split at h
        · cases h
        · exact (adds_tag o tag).trans (adds_writeEntries h)
  | null =>
      rw [← Option.some.inj h]
      exact adds_writeScalar p tag _ _ o
  | bool b =>
      rw [← Option.some.inj h]
      exact adds_writeScalar p tag _ _ o
  | integer i =>
      rw [← Option.some.inj h]
      exact adds_writeScalar p tag _ _ o
  | real x =>
      rw [← Option.some.inj h]
      exact adds_writeScalar p tag _ _ o
  | string s =>
      rw [← Option.some.inj h]
      exact adds_writeScalar p tag _ _ o

theorem adds_writeItems {indent : Nat} {items : List Node} {o o' : Output}
    (h : writeItems indent items o = some o') : Adds o o' := by
  cases items with
  | nil =>
      rw [← Option.some.inj h]
      exact .refl o
  | cons item r =>
      obtain ⟨o₁, o₂, hdash, -, hitem, hrest⟩ := writeItems_cons h
      exact (hdash.trans (adds_writeNode hitem)).trans (adds_writeItems hrest)

theorem adds_writeEntries {indent : Nat} {entries : List (Node × Node)} {o o' : Output}
    (h : writeEntries indent entries o = some o') : Adds o o' := by
  cases entries with
  | nil =>
      rw [← Option.some.inj h]
      exact .refl o
  | cons e r =>
      obtain ⟨place, o₁, o₂, o₃, o₄, hstart, hkey, hcolon, -, hvalue, hrest⟩ := writeEntries_cons h
      have hbefore := (hstart.trans (adds_writeNode hkey)).trans hcolon
      exact (hbefore.trans (adds_writeNode hvalue)).trans (adds_writeEntries hrest)

end

/-! ## Collections -/

/-- The node is a sequence or a mapping. -/
def isCollection : Node → Bool
  | .sequence _ => true
  | .mapping _ => true
  | _ => false

/-- A sequence is not written without a dash or a bracket, a mapping not without a colon or a
bracket. -/
theorem exists_mark_of_writeNode {p : Place} {n : Node} (hn : isCollection n = true)
    {o o' : Output} (h : writeNode p none n o = some o') :
    ∃ c ∈ ['-', '[', ':', '\x7b'], c ∈ o'.text.toList := by
  cases n with
  | sequence items =>
      rw [writeNode] at h
      cases items with
      | nil =>
          obtain rfl := Option.some.inj h
          exact ⟨'[', by simp, by simp [token, put]⟩
      | cons item r =>
          obtain ⟨o₁, o₂, -, hdash, hitem, hrest⟩ := writeItems_cons h
          exact ⟨'-', by simp, adds_writeItems hrest (adds_writeNode hitem hdash)⟩
  | mapping entries =>
      rw [writeNode] at h
      cases entries with
      | nil =>
          obtain rfl := Option.some.inj h
          exact ⟨'\x7b', by simp, by simp [token, put]⟩
      | cons e r =>
          split at h
          · cases ‹(e :: r).isEmpty = true›
          · split at h
            · cases h
            · obtain ⟨place, o₁, o₂, o₃, o₄, -, -, -, hcolon, hvalue, hrest⟩ := writeEntries_cons h
              exact ⟨':', by simp, adds_writeEntries hrest (adds_writeNode hvalue hcolon)⟩
  | _ => cases hn

/-- The YAML text of a collection is not blank. -/
theorem not_blank_of_print {n : Node} (hn : isCollection n = true) {text : String}
    (h : print n = some text) : Text.isBlankText text = false := by
  obtain ⟨o, ho, htext⟩ := Option.bind_eq_some_iff.1 h
  obtain ⟨c, hmark, hc⟩ := exists_mark_of_writeNode hn ho
  rw [← Option.some.inj htext]
  have hc := adds_indentTo o 0 hc
  have hvisible : Text.isBlank c = false := by
    have hall : ['-', '[', ':', '\x7b'].all (!Text.isBlank ·) = true := by decide
    simpa using List.all_eq_true.1 hall c hmark
  rw [Text.isBlankText, List.all_eq_false]
  exact ⟨c, hc, by simp [hvisible]⟩

end ConfigLog.Yaml
