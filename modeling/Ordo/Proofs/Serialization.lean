import Mathlib.Data.List.Nodup
import Ordo.Value.Equal

namespace Ordo

/-!
# Serialised syntax trees

A syntax tree is exchanged as nested dictionaries, each with the name of a kind and the fields of
a node of that kind.  No kind has a field called `type` and no two kinds have the same name, so
that the tree can be read back from its dictionaries.

* `Value.IsSyntax` — the values that syntax trees are made of;
* `Value.serialize_node` — a node as a dictionary;
* `Value.deserialize`, `Value.deserialize_serialize` — reading a tree back;
* `Value.same_serialize` — dictionaries are equal as data exactly if the trees are;
* `Value.serialize_faithful` — nothing of a tree is lost.
-/

open List

/-! ### Kinds of node -/

namespace Kind

theorem mem_all (k : Kind) : k ∈ all := by cases k <;> decide

theorem name_injective {k l : Kind} (h : k.name = l.name) : k = l := by
  have hpairs : ∀ k ∈ all, ∀ l ∈ all, k.name = l.name → k = l := by decide
  exact hpairs k (mem_all k) l (mem_all l) h

theorem ofName?_name (k : Kind) : ofName? k.name = some k := by cases k <;> rfl

/-- The keys of a serialised node are all different. -/
theorem nodup_keys (k : Kind) : ("type" :: k.fields).Nodup := by cases k <;> decide

end Kind

namespace Value

/-! ### Syntax trees as values -/

/-- Plain data without parts. -/
def isAtom : Value → Bool
  | none | bool _ | int _ | float _ | str _ => true
  | _ => false

/-- The values of syntax trees: nodes with all their fields, lists, and plain data.  There are no
    tokens, parse trees, tuples or dictionaries in them. -/
inductive IsSyntax : Value → Prop
  | atom (v : Value) (h : v.isAtom = true) : IsSyntax v
  | list (items : List Value) (h : ∀ v ∈ items, IsSyntax v) : IsSyntax (list items)
  | node (kind : Kind) (fields : List Value) (hfields : fields.length = kind.fields.length)
      (h : ∀ v ∈ fields, IsSyntax v) : IsSyntax (node kind fields)

variable {v w : Value} {k l : Kind} {names : List String} {vs ws : List Value}

theorem serialize_of_isAtom (h : v.isAtom = true) : v.serialize = v := by
  cases v with
  | none | bool | int | float | str => rfl
  | _ => cases h

theorem serializeAll_eq_map (vs : List Value) : serializeAll vs = vs.map serialize := by
  induction vs with
  | nil => rfl
  | cons v vs ih => rw [serializeAll, map_cons, ih]

theorem serializeFields_eq_zip (names : List String) (vs : List Value) :
    serializeFields names vs = names.zip (vs.map serialize) := by
  induction names generalizing vs with
  | nil => simp [serializeFields]
  | cons name names ih =>
    cases vs with
    | nil => simp [serializeFields]
    | cons v vs => rw [serializeFields, ih, map_cons, zip_cons_cons]

theorem serialize_list (vs : List Value) : (list vs).serialize = list (vs.map serialize) := by
  rw [serialize, serializeAll_eq_map]

/-- A node that is not bare, as a dictionary. -/
theorem serialize_node (hk : k ≠ .bare) (fs : List Value) : (node k fs).serialize
      = dict (("type", str k.name) :: k.fields.zip (fs.map serialize)) := by
  rw [← serializeFields_eq_zip]
  cases k with
  | bare => exact absurd rfl hk
  | _ => rfl

/-! ### Reading back -/

mutual

/-- Reads back a serialised value: a dictionary that starts with the name of a kind is a node of
    that kind. -/
def deserialize : Value → Value
  | dict ((key, str name) :: es) =>
      match Kind.ofName? name with
      | some k => node k (deserializeEntries es)
      | Option.none => dict ((key, str name) :: es)
  | list vs => list (deserializeAll vs)
  | v => v

/-- Reads back the entries of a serialised node. -/
def deserializeEntries : List (String × Value) → List Value
  | [] => []
  | (_, v) :: es => deserialize v :: deserializeEntries es

/-- Reads back several values. -/
def deserializeAll : List Value → List Value
  | [] => []
  | v :: vs => deserialize v :: deserializeAll vs

end

theorem deserializeAll_eq_map (vs : List Value) : deserializeAll vs = vs.map deserialize := by
  induction vs with
  | nil => rfl
  | cons v vs ih => rw [deserializeAll, map_cons, ih]

theorem deserializeEntries_eq_map (es : List (String × Value)) :
    deserializeEntries es = es.map fun e => deserialize e.2 := by
  induction es with
  | nil => rfl
  | cons e es ih => rw [deserializeEntries, map_cons, ih]

/-- The values under given names, read back one by one. -/
theorem deserializeEntries_zip (hlength : vs.length = names.length) :
    deserializeEntries (names.zip vs) = vs.map deserialize := by
  rw [deserializeEntries_eq_map, ← Function.comp_def deserialize Prod.snd, ← map_map,
    map_snd_zip (Nat.le_of_eq hlength)]

/-- **A syntax tree is read back** from its dictionaries. -/
theorem deserialize_serialize (h : v.IsSyntax) : v.serialize.deserialize = v := by
  have hall : ∀ {vs : List Value}, (∀ v ∈ vs, v.serialize.deserialize = v) →
      (vs.map serialize).map deserialize = vs := by
    intro vs ih
    rw [map_map]
    exact (map_congr_left ih).trans (map_id vs)
  induction h with
  | atom v h =>
    rw [serialize_of_isAtom h]
    cases v with
    | none | bool | int | float | str => rfl
    | _ => cases h
  | list vs h ih => rw [serialize_list, deserialize, deserializeAll_eq_map, hall ih]
  | node k fs hfields h ih =>
    by_cases hk : k = .bare
    · subst hk
      rfl
    · rw [serialize_node hk, deserialize, Kind.ofName?_name]
      show node k (deserializeEntries _) = node k fs
      rw [deserializeEntries_zip (by simpa using hfields), hall ih]

/-! ### Equality of serialised values -/

/-- Different names lead to the values that stand under them. -/
theorem lookup_zip_of_mem (hnames : names.Nodup)
    {e : String × Value} (he : e ∈ names.zip vs) : (names.zip vs).lookup e.1 = some e.2 := by
  induction names generalizing vs with
  | nil => simp at he
  | cons name names ih =>
    obtain ⟨hname, hnames⟩ := nodup_cons.mp hnames
    cases vs with
    | nil => simp at he
    | cons v vs =>
      rw [zip_cons_cons, lookup_cons]
      rcases mem_cons.mp he with rfl | hrest
      · simp
      · have hne : e.1 ≠ name := by
          intro heq
          exact hname (heq ▸ (of_mem_zip hrest).1)
        rw [beq_false_of_ne hne]
        exact ih hnames hrest

/-- Values under the same names are compared one by one. -/
theorem sameEntries_zip {es : List (String × Value)} (hvs : vs.length = names.length)
    (hws : ws.length = names.length) (hes : ∀ e ∈ names.zip ws, es.lookup e.1 = some e.2) :
    sameEntries (names.zip vs) es = sameAll vs ws := by
  induction names generalizing vs ws with
  | nil =>
    obtain rfl := length_eq_zero_iff.mp hvs
    obtain rfl := length_eq_zero_iff.mp hws
    simp [sameEntries, sameAll]
  | cons name names ih =>
    obtain ⟨v, vs, rfl⟩ := exists_cons_of_length_eq_add_one hvs
    obtain ⟨w, ws, rfl⟩ := exists_cons_of_length_eq_add_one hws
    obtain ⟨hw, hes⟩ := forall_mem_cons.mp hes
    rw [zip_cons_cons, sameEntries, sameAll, hw,
      ih (Nat.succ.inj hvs) (Nat.succ.inj hws) hes]

/-- Dictionaries of nodes are equal if the nodes have the same kind and equal fields. -/
theorem same_dict_node (hvs : vs.length = k.fields.length) (hws : ws.length = l.fields.length) :
    (dict (("type", str k.name) :: k.fields.zip vs)).same
        (dict (("type", str l.name) :: l.fields.zip ws))
      = (k == l && sameAll vs ws) := by
  have htype : (("type", str l.name) :: l.fields.zip ws).lookup "type" = some (str l.name) := by
    simp
  rw [same, sameEntries, htype]
  by_cases hkl : k = l
  · subst hkl
    obtain ⟨hfresh, hnames⟩ := nodup_cons.mp (Kind.nodup_keys k)
    -- below the kind, each field is found under its own name
    have hfields : ∀ e ∈ k.fields.zip ws,
        (("type", str k.name) :: k.fields.zip ws).lookup e.1 = some e.2 := by
      intro e he
      have hne : e.1 ≠ "type" := by
        intro heq
        exact hfresh (heq ▸ (of_mem_zip he).1)
      rw [lookup_cons, beq_false_of_ne hne]
      exact lookup_zip_of_mem hnames he
    rw [sameEntries_zip hvs hws hfields]
    simp [same, hvs, hws]
  · have hname : k.name ≠ l.name := fun h => hkl (Kind.name_injective h)
    simp only [same, beq_false_of_ne hkl, beq_false_of_ne hname, Bool.false_and, Bool.and_false]

/-- A node is serialised as a node or as a dictionary. -/
theorem serialize_node_cases (k : Kind) (fs : List Value) :
    (node k fs).serialize = node k fs ∨ ∃ es, (node k fs).serialize = dict es := by
  by_cases hk : k = .bare
  · subst hk
    exact .inl rfl
  · exact .inr ⟨_, serialize_node hk fs⟩

/-- Values with parts. -/
def isCompound : Value → Bool
  | list _ | dict _ | node _ _ => true
  | _ => false

theorem isCompound_serialize (hv : v.IsSyntax) (hatom : v.isAtom = false) :
    v.isCompound = true ∧ v.serialize.isCompound = true := by
  cases hv with
  | atom v h => exact absurd h (by simp [hatom])
  | list vs h => exact ⟨rfl, by rw [serialize_list]; rfl⟩
  | node k fs hfs h =>
    rcases serialize_node_cases k fs with heq | ⟨es, heq⟩ <;> rw [heq] <;> exact ⟨rfl, rfl⟩

/-- What has no parts is different from all that has. -/
theorem same_atom_compound (hv : v.isAtom = true) (hw : w.isCompound = true) :
    v.same w = false ∧ w.same v = false := by
  cases w with
  | list | dict | node =>
    cases v with
    | none | bool | int | float | str => exact ⟨rfl, rfl⟩
    | _ => cases hv
  | _ => cases hw

/-- Serialising keeps what has no parts apart from what has. -/
theorem same_serialize_of_isAtom (hv : v.isAtom = true) (hw : w.IsSyntax) :
    v.serialize.same w.serialize = v.same w ∧ w.serialize.same v.serialize = w.same v := by
  rw [serialize_of_isAtom hv]
  cases hatom : w.isAtom with
  | true => rw [serialize_of_isAtom hatom]; exact ⟨rfl, rfl⟩
  | false =>
    obtain ⟨hcompound, hserialized⟩ := isCompound_serialize hw hatom
    obtain ⟨hleft, hright⟩ := same_atom_compound hv hcompound
    obtain ⟨hleft', hright'⟩ := same_atom_compound hv hserialized
    exact ⟨hleft'.trans hleft.symm, hright'.trans hright.symm⟩

/-- Nodes are equal if their kinds and fields are, and also when they are serialised. -/
theorem same_serialize_node {fs gs : List Value}
    (hfs : fs.length = k.fields.length) (hgs : gs.length = l.fields.length)
    (h : sameAll (fs.map serialize) (gs.map serialize) = sameAll fs gs) :
    (node k fs).serialize.same (node l gs).serialize = (node k fs).same (node l gs) := by
  by_cases hk : k = .bare
  · -- a bare node is equal to nothing
    subst hk
    rcases serialize_node_cases l gs with heq | ⟨es, heq⟩
    · rw [heq]
      rfl
    · rw [heq, same, bne_self_eq_false, Bool.and_false, Bool.false_and]
      rfl
  · by_cases hl : l = .bare
    · subst hl
      rw [serialize_node hk, same, beq_false_of_ne hk, Bool.false_and, Bool.false_and]
      rfl
    · rw [serialize_node hk, serialize_node hl, same_dict_node (by simpa using hfs)
        (by simpa using hgs), h, same, bne_iff_ne.mpr hk, Bool.and_true]

/-- **Serialising keeps equality of data**, in both directions. -/
theorem same_serialize (hv : v.IsSyntax) (hw : w.IsSyntax) :
    v.serialize.same w.serialize = v.same w := by
  have hall : ∀ {vs ws : List Value},
      (∀ v ∈ vs, ∀ {w : Value}, w.IsSyntax → v.serialize.same w.serialize = v.same w) →
      (∀ w ∈ ws, w.IsSyntax) →
      sameAll (vs.map serialize) (ws.map serialize) = sameAll vs ws := by
    intro vs
    induction vs with
    | nil => intro ws _ _; cases ws <;> rfl
    | cons v vs ihvs =>
      intro ws hvs hws
      cases ws with
      | nil => rfl
      | cons w ws =>
        obtain ⟨hv, hvs⟩ := forall_mem_cons.mp hvs
        obtain ⟨hw, hws⟩ := forall_mem_cons.mp hws
        rw [map_cons, map_cons, sameAll, sameAll, hv hw, ihvs hvs hws]
  induction hv generalizing w with
  | atom v hv => exact (same_serialize_of_isAtom hv hw).1
  | list vs h ih =>
    cases hw with
    | atom w hw => exact (same_serialize_of_isAtom hw (.list vs h)).2
    | list ws hws => rw [serialize_list, serialize_list, same, same, hall ih hws]
    | node l gs hgs hws =>
      rw [serialize_list]
      rcases serialize_node_cases l gs with heq | ⟨es, heq⟩ <;> rw [heq] <;> rfl
  | node k fs hfs h ih =>
    cases hw with
    | atom w hw => exact (same_serialize_of_isAtom hw (.node k fs hfs h)).2
    | list ws hws =>
      rw [serialize_list]
      rcases serialize_node_cases k fs with heq | ⟨es, heq⟩ <;> rw [heq] <;> rfl
    | node l gs hgs hws => exact same_serialize_node hfs hgs (hall ih hws)

/-- **Nothing of a syntax tree is lost** when it is serialised.  It can be read back, trees with
    the same dictionaries are the same, and trees with equal dictionaries are equal as data. -/
theorem serialize_faithful {v w : Value} (hv : v.IsSyntax) (hw : w.IsSyntax) :
    v.serialize.deserialize = v
    ∧ (v.serialize = w.serialize → v = w)
    ∧ (v.serialize.same w.serialize = true → v.same w = true) := by
  refine ⟨deserialize_serialize hv, fun h => ?_, fun h => ?_⟩
  · rw [← deserialize_serialize hv, h, deserialize_serialize hw]
  · rwa [same_serialize hv hw] at h

/-- A call as a statement and a call as an expression have the same fields. -/
theorem serialize_faithful_calls : (node .callStatement [str "f", list []]).serialize.deserialize
      = node .callStatement [str "f", list []]
    ∧ (node .callStatement [str "f", list []]).serialize
      ≠ (node .functionCall [str "f", list []]).serialize
    ∧ (node .callStatement [str "f", list []]).serialize.same
      (node .functionCall [str "f", list []]).serialize = false := by
  have hfields : ∀ v ∈ [str "f", list []], v.IsSyntax := by
    rw [List.forall_mem_cons, List.forall_mem_singleton]
    exact ⟨.atom _ rfl, .list _ (List.forall_mem_nil _)⟩
  obtain ⟨hback, hequal, hsame⟩ := serialize_faithful (.node .callStatement _ rfl hfields)
    (.node .functionCall _ rfl hfields)
  refine ⟨hback, fun h => absurd (hequal h) (by simp), ?_⟩
  exact Bool.eq_false_iff.mpr fun h => absurd (hsame h) (by decide)

end Value

end Ordo
