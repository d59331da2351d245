import Ordo.Proofs.Outlines

namespace Ordo

/-!
# Declarations are lost

A declaration among the statements of a body stays as it was parsed, since there is no rule to
make a node from it.  The rules for bodies collect declaration nodes and statement nodes, so they
find no declaration and drop what was parsed.

* `Derivation.statements` — the statements that stand directly in a body;
* `Derivation.Declares` — the declaration that a statement makes as it is written;
* `field_declarations` — the declarations of a body are none;
* `declarations_lost` — the declarations of any body in a text, and when they are as written.
-/

open Typing List

namespace Derivation

/-! ### Statements of a body -/

/-- The statements that stand directly in a body. -/
def statements : Derivation → List Derivation
  | node _ ds => ds.flatMap fun m =>
      if m.symbol = Repetition.statements.symbol then m.groups.flatten else []
  | leaf _ => []

/-- Whether a statement is a declaration. -/
def isDeclaration : Derivation → Bool
  | node _ (d :: _) => d.symbol = Rule.declaration.symbol
  | _ => false

/-- The declaration that a statement makes as it is written: of an array with its size, or of an
    object with its class. -/
inductive Declares : Derivation → Value → Prop
  | array {p q r : Production} {name opening closing : Token} {size : Derivation} {v : Value}
      {tail : List Derivation} (hr : r.lhs = .rule .arrayDeclaration)
      (hsize : size.values = .ok [v]) :
      Declares (node p (node q [node r [leaf name, leaf opening, size, leaf closing]] :: tail))
        (.node .declaration [.str name.text, .str "array", v, .none])
  | object {p q r : Production} {className name : Token} {tail : List Derivation}
      (hr : r.lhs = .rule .objectDeclaration) :
      Declares (node p (node q [node r [leaf className, leaf name]] :: tail))
        (.node .declaration [.str name.text, .str "object", .none, .str className.text])

variable {ws : List Value}

/-- The statements of a body are derivations of statements, and something is built from them if it
    is from the body. -/
theorem IsSound.statements {c : Derivation} (hsound : c.IsSound) (hvalues : c.values = .ok ws) :
    ∀ s ∈ c.statements, s.IsSound ∧ s.symbol = Rule.statement.symbol ∧
      ∃ vs, s.values = .ok vs := by
  cases c with
  | leaf t => simp [Derivation.statements]
  | node p ds =>
    intro s hs
    obtain ⟨m, hm, hs⟩ := mem_flatMap.mp hs
    split at hs
    · rename_i hstatements
      obtain ⟨g, hg, hsg⟩ := mem_flatten.mp hs
      obtain ⟨hphrase, hgsound⟩ := (hsound.of_mem_children m hm).groups hstatements g hg
      obtain ⟨vs, hvs⟩ := exists_values_of_mem_children hvalues m hm
      rw [values_eq_valuesAll_groups hstatements] at hvs
      refine ⟨hgsound s hsg, ?_, exists_values_of_mem hvs s hs⟩
      have hone : g.map symbol = [Rule.statement.symbol] := mem_singleton.mp hphrase
      have hmem : s.symbol ∈ g.map symbol := mem_map_of_mem hsg
      rw [hone] at hmem
      exact mem_singleton.mp hmem
    · simp at hs

/-- **A statement that is a declaration declares something.** -/
theorem IsSound.exists_declares {s : Derivation} (hsound : s.IsSound)
    (hvalues : s.values = .ok ws) (hs : s.isDeclaration = true) : ∃ v, s.Declares v := by
  obtain ⟨p, d, tail, rfl, hd⟩ : ∃ p d tail, s = node p (d :: tail) ∧
      d.symbol = Rule.declaration.symbol := by
    unfold isDeclaration at hs
    split at hs
    · exact ⟨_, _, _, rfl, by simpa using hs⟩
    · simp at hs
  have hdsound : d.IsSound := hsound.of_mem_children d (by simp)
  obtain ⟨vs, hvs⟩ := exists_values_of_mem_children hvalues d (by simp)
  obtain ⟨q, ds, rfl, -, hds⟩ := hdsound.exists_children hd
  rcases mem_pair.mp (show ds.map symbol ∈
    [[Rule.arrayDeclaration.symbol], [Rule.objectDeclaration.symbol]] from hds) with hds | hds
  · obtain ⟨a, rfl, ha⟩ := map_eq_singleton_iff.mp hds
    obtain ⟨us, hus⟩ := exists_values_of_mem_children hvs a (by simp)
    obtain ⟨r, es, rfl, hr, hes⟩ := (hdsound.of_mem_children a (by simp)).exists_children ha
    have hshape : es.map symbol = [.terminal .cname, .terminal .lsqb, Rule.expression.symbol,
        .terminal .rsqb] := mem_singleton.mp hes
    obtain ⟨n, es, rfl, hn, hes⟩ := map_eq_cons_iff.mp hshape
    obtain ⟨o, es, rfl, ho, hes⟩ := map_eq_cons_iff.mp hes
    obtain ⟨size, es, rfl, hsize, hes⟩ := map_eq_cons_iff.mp hes
    obtain ⟨c, rfl, hc⟩ := map_eq_singleton_iff.mp hes
    obtain ⟨name, rfl, -⟩ := exists_eq_leaf hn
    obtain ⟨opening, rfl, -⟩ := exists_eq_leaf ho
    obtain ⟨closing, rfl, -⟩ := exists_eq_leaf hc
    obtain ⟨sizes, hsizes⟩ := exists_values_of_mem_children hus size (by simp)
    obtain ⟨v, rfl⟩ := eq_singleton_of_values hsize hsizes
    exact ⟨_, .array hr hsizes⟩
  · obtain ⟨a, rfl, ha⟩ := map_eq_singleton_iff.mp hds
    obtain ⟨r, es, rfl, hr, hes⟩ := (hdsound.of_mem_children a (by simp)).exists_children ha
    have hshape : es.map symbol = [.terminal .cname, .terminal .cname] := mem_singleton.mp hes
    obtain ⟨c, es, rfl, hc, hes⟩ := map_eq_cons_iff.mp hshape
    obtain ⟨n, rfl, hn⟩ := map_eq_singleton_iff.mp hes
    obtain ⟨className, rfl, -⟩ := exists_eq_leaf hc
    obtain ⟨name, rfl, -⟩ := exists_eq_leaf hn
    exact ⟨_, .object hr⟩

/-- The declarations among statements, in order. -/
theorem exists_forall₂_declares {ss : List Derivation}
    (h : ∀ s ∈ ss, s.IsSound ∧ s.symbol = Rule.statement.symbol ∧ ∃ vs, s.values = .ok vs) :
    ∃ declared, List.Forall₂ Declares (ss.filter isDeclaration) declared := by
  induction ss with
  | nil => exact ⟨[], .nil⟩
  | cons s ss ih =>
    obtain ⟨⟨hsound, -, vs, hvs⟩, hss⟩ := forall_mem_cons.mp h
    obtain ⟨declared, hdeclared⟩ := ih hss
    cases hs : s.isDeclaration with
    | false => exact ⟨declared, by simpa [filter_cons, hs] using hdeclared⟩
    | true =>
      obtain ⟨v, hv⟩ := hsound.exists_declares hvs hs
      exact ⟨v :: declared, by simpa [filter_cons, hs] using ⟨hv, hdeclared⟩⟩

end Derivation

/-! ### Bodies -/

/-- A subroutine with an outline has no declarations. -/
theorem Value.field_declarations_of_subroutine? {v : Value} {s : SubroutineOutline}
    (h : v.subroutine? = some s) : v.field? "declarations" = some (.list []) := by
  unfold Value.subroutine? at h
  split at h
  · rfl
  · cases h

/-- **The declarations of a body are none.** -/
theorem field_declarations {c : Derivation} {w : Value} (hsound : c.IsSound)
    (hc : c.symbol = Rule.mainAlgorithm.symbol ∨ c.symbol = Rule.subroutineDefinition.symbol)
    (hvalues : c.values = .ok [w]) : w.field? "declarations" = some (.list []) := by
  have htree : ∀ {r : Rule}, c.symbol = r.symbol →
      ∃ t, trees.rule r t ∧ t.build = .ok w := by
    intro r hr
    obtain ⟨t, ht⟩ : ∃ t, c.forest = [t] := by
      obtain ⟨p, ds, rfl, hp, -⟩ := hsound.exists_children hr
      exact ⟨_, by rw [Derivation.forest, hp]⟩
    rw [Derivation.values, ht] at hvalues
    obtain ⟨v, hv, hone⟩ := ParseTree.buildAll_singleton_eq_ok_iff.mp hvalues
    obtain rfl := singleton_inj.mp hone
    exact ⟨t, ⟨c, hsound, hr, ht⟩, hv⟩
  rcases hc with hc | hc
  · obtain ⟨t, ht, hbuild⟩ := htree hc
    obtain ⟨body, rfl, -⟩ := ParseTree.mainAlgorithm_of_build ht hbuild
    rfl
  · obtain ⟨t, ht, hbuild⟩ := htree hc
    obtain ⟨s, -, hs⟩ := ParseTree.subroutine?_of_build ht hbuild
    exact Value.field_declarations_of_subroutine? hs

/-- **Declarations are lost.**  In the syntax tree of a text, the declarations of the main part and
    of every subroutine are none, so they are the declarations that stand in its body as they are
    written if and only if there are none. -/
theorem declarations_lost {text : String} {v : Value} (h : programOfText text = .ok v) :
    ∃ d, derive text.toList = .ok d ∧ d.values = .ok [v] ∧
      ∀ c ∈ d.parts, c.symbol = Rule.mainAlgorithm.symbol ∨
          c.symbol = Rule.subroutineDefinition.symbol → ∃ w declared, c.values = .ok [w] ∧
          List.Forall₂ Derivation.Declares (c.statements.filter Derivation.isDeclaration) declared ∧
          w.field? "declarations" = some (.list []) ∧
          (w.field? "declarations" = some (.list declared) ↔
            ∀ s ∈ c.statements, s.isDeclaration = false) := by
  refine forall_parts_of_programOfText h fun c ws hsound hws hc => ?_
  obtain ⟨w, rfl⟩ : ∃ w, ws = [w] := by
    rcases hc with hc | hc <;> exact Derivation.eq_singleton_of_values hc hws
  obtain ⟨declared, hdeclared⟩ := Derivation.exists_forall₂_declares (hsound.statements hws)
  have hnone := field_declarations hsound hc hws
  refine ⟨w, declared, hws, hdeclared, hnone, ?_⟩
  have hlength := hdeclared.length_eq
  rw [hnone, Option.some.injEq, Value.list.injEq, eq_comm, ← List.length_eq_zero_iff, ← hlength,
    List.length_eq_zero_iff, List.filter_eq_nil_iff]
  simp

/-- A main part with an array and a subroutine with an object. -/
theorem declarations_lost_queue :
    ∃ v, programOfText "f(n) begin Queue q end begin A[3] end" = .ok v ∧
      ∃ d, derive "f(n) begin Queue q end begin A[3] end".toList = .ok d ∧ d.values = .ok [v] ∧
        ∀ c ∈ d.parts, c.symbol = Rule.mainAlgorithm.symbol ∨
            c.symbol = Rule.subroutineDefinition.symbol → ∃ w declared, c.values = .ok [w] ∧
            List.Forall₂ Derivation.Declares (c.statements.filter Derivation.isDeclaration)
              declared ∧
            w.field? "declarations" = some (.list []) ∧
            (w.field? "declarations" = some (.list declared) ↔
              ∀ s ∈ c.statements, s.isDeclaration = false) := by
  obtain ⟨v, hv⟩ := exists_eq_ok_of_isOk (x := programOfText "f(n) begin Queue q end begin A[3] end")
    (by decide +kernel)
  exact ⟨v, hv, declarations_lost hv⟩

/-- A text that declares an array and an object is read as one that does nothing. -/
theorem declarations_read_as_nothing :
    ((programOfText "begin A[3] Node x end").toOption.any fun v =>
      (programOfText "begin end").toOption.any v.same) = true := by
  decide +kernel

end Ordo
