import Mathlib.Data.List.Forall2
import Mathlib.Logic.Relation
import WakeRouter.Proofs.Json.Reading
import WakeRouter.Proofs.Json.Writing
import WakeRouter.Vm.NodeList

/-!
# Lists of machines and their forms

An object stands for a machine when each of the fields that count has one value, of the right
kind; the tags may be missing instead.  Where the fields stand, and what else the object has, makes
no difference.  So a list of machines has many forms, all of which are read as that list; the one
that is written is among them.
-/

namespace WakeRouter

theorem exists_of_forall₂ {α β : Type} {p : α → β → Prop} {l : List α} {l' : List β} {a : α}
    (hall : List.Forall₂ p l l') (ha : a ∈ l) : ∃ b, p a b := by
  induction hall with
  | nil => cases ha
  | cons hp _ ih =>
      rcases List.mem_cons.mp ha with rfl | ha
      · exact ⟨_, hp⟩
      · exact ih ha

namespace Node

open Draft (fresh text? texts?)

abbrev Fields := List (Option String × Json.Value)

/-- The values of the fields of that name. -/
def valuesOf (fields : Fields) (name : String) : List Json.Value :=
  (fields.filter fun field => field.1 = some name).map Prod.snd

def textValue (text : String) : Json.Value :=
  .string (some text)

def textsValue (texts : List String) : Json.Value :=
  .array (texts.map textValue)

/-- The fields that may not be left out. -/
def requiredNames : List String := ["hostname", "ip", "status"]

/-- The tags that an object gives, be it by not giving any. -/
def HasTags (fields : Fields) (tags : List String) : Prop :=
  valuesOf fields "tags" = [textsValue tags] ∨ valuesOf fields "tags" = [] ∧ tags = []

/-- The object with the fields stands for the machine.  Every name has to be a text, also of a
field that does not count. -/
structure Describes (fields : Fields) (node : Node) : Prop where
  named : ∀ field ∈ fields, field.1 ≠ none
  hostname : valuesOf fields "hostname" = [textValue node.hostname]
  address : valuesOf fields "ip" = [textValue node.address]
  status : valuesOf fields "status" = [textValue node.status]
  tags : HasTags fields node.tags

/-- The tree stands for the machine, as an object or as a row of values. -/
inductive Presents : Json.Value → Node → Prop
  | object {fields : Fields} {node : Node} (hfields : Describes fields node) :
      Presents (.object fields) node
  | row {hostname address status : String} :
      Presents (.array [textValue hostname, textValue address, textValue status])
        ⟨hostname, address, status, []⟩
  | taggedRow {hostname address status : String} {tags : List String} :
      Presents (.array [textValue hostname, textValue address, textValue status, textsValue tags])
        ⟨hostname, address, status, tags⟩

variable {fields fields' : Fields} {node : Node} {name : String} {value : Json.Value}

/-! ## Values -/

theorem text?_eq_some_iff {text : String} : text? value = some text ↔ value = textValue text := by
  cases value <;> simp [text?, textValue]

theorem texts?_eq_some_iff {texts : List String} :
    texts? value = some texts ↔ value = textsValue texts := by
  cases value with
  | array items =>
      simp only [texts?, mapM_eq_some_iff, text?_eq_some_iff, textsValue, Json.Value.array.injEq]
      constructor
      · intro hitems
        induction hitems with
        | nil => rfl
        | cons hvalue _ ih => rw [hvalue, ih, List.map_cons]
      · rintro rfl
        exact List.forall₂_map_left_iff.mpr (List.forall₂_same.mpr fun _ _ => rfl)
  | null | boolean | number | string | object => simp [texts?, textsValue]

/-! ## Fields -/

theorem valuesOf_cons (field : Option String × Json.Value) (fields : Fields) (name : String) :
    valuesOf (field :: fields) name =
      if field.1 = some name then field.2 :: valuesOf fields name else valuesOf fields name := by
  unfold valuesOf
  rw [List.filter_cons]
  simp only [decide_eq_true_eq]
  split <;> rfl

/-- What becomes of a field of a draft, given the values for it one after the other. -/
inductive Fills {α : Type} (read : Json.Value → Option α) : List Json.Value →
    (old new : Option α) → Prop
  | kept {old : Option α} : Fills read [] old old
  | filled {value : Json.Value} {x : α} (hvalue : read value = some x) :
      Fills read [value] none (some x)

theorem fills_cons_iff {α : Type} {read : Json.Value → Option α} {values : List Json.Value}
    {old new : Option α} : Fills read (value :: values) old new ↔
      ∃ mid, fresh old (read value) = some mid ∧ Fills read values mid new := by
  constructor
  · intro hfills
    cases hfills with
    | filled hvalue => exact ⟨_, by simp [fresh, hvalue], .kept⟩
  · rintro ⟨mid, hfresh, hfills⟩
    cases old with
    | some x => cases hfresh
    | none =>
        obtain ⟨x, hvalue, rfl⟩ := Option.map_eq_some_iff.mp hfresh
        cases hfills with
        | kept => exact .filled hvalue

theorem fills_none_iff {α : Type} {read : Json.Value → Option α} {values : List Json.Value}
    {new : Option α} : Fills read values none new ↔
      values = [] ∧ new = none ∨
        ∃ value x, values = [value] ∧ read value = some x ∧ new = some x := by
  constructor
  · intro hfills
    cases hfills with
    | kept => exact .inl ⟨rfl, rfl⟩
    | filled hvalue => exact .inr ⟨_, _, rfl, hvalue, rfl⟩
  · rintro (⟨rfl, rfl⟩ | ⟨value, x, rfl, hvalue, rfl⟩)
    · exact .kept
    · exact .filled hvalue

theorem fills_nil_iff {α : Type} {read : Json.Value → Option α} {old new : Option α} :
    Fills read [] old new ↔ old = new := by
  constructor
  · rintro ⟨⟩
    rfl
  · rintro rfl
    exact .kept

theorem foldlM_set_eq_some_iff {d d' : Draft} : fields.foldlM Draft.set d = some d' ↔
    (∀ field ∈ fields, field.1 ≠ none) ∧
      Fills text? (valuesOf fields "hostname") d.hostname? d'.hostname? ∧
      Fills text? (valuesOf fields "ip") d.address? d'.address? ∧
      Fills text? (valuesOf fields "status") d.status? d'.status? ∧
      Fills texts? (valuesOf fields "tags") d.tags? d'.tags? := by
  induction fields generalizing d with
  | nil =>
      obtain ⟨hostname?, address?, status?, tags?⟩ := d
      obtain ⟨hostname?', address?', status?', tags?'⟩ := d'
      simp [valuesOf, fills_nil_iff]
  | cons field fields ih =>
      obtain ⟨_ | name, value⟩ := field
      · simp [Draft.set]
      · rw [List.foldlM_cons]
        simp only [valuesOf_cons, Option.some.injEq, List.forall_mem_cons, Option.bind_eq_bind,
          Option.bind_eq_some_iff, ih]
        by_cases hhostname : name = "hostname"
        · simp [Draft.set, hhostname, fills_cons_iff, Option.bind_eq_some_iff]
          grind
        by_cases haddress : name = "ip"
        · simp [Draft.set, haddress, fills_cons_iff, Option.bind_eq_some_iff]
          grind
        by_cases hstatus : name = "status"
        · simp [Draft.set, hstatus, fills_cons_iff, Option.bind_eq_some_iff]
          grind
        by_cases htags : name = "tags"
        · simp [Draft.set, htags, fills_cons_iff, Option.bind_eq_some_iff]
          grind
        · simp [Draft.set, hhostname, haddress, hstatus, htags]

/-! ## Machines -/

theorem fills_text_iff {values : List Json.Value} {text : String} :
    Fills text? values none (some text) ↔ values = [textValue text] := by
  simp [fills_none_iff, text?_eq_some_iff]

theorem fills_texts_iff {tags : List String} :
    (∃ tags?, Fills texts? (valuesOf fields "tags") none tags? ∧ tags?.getD [] = tags) ↔
      HasTags fields tags := by
  unfold HasTags
  generalize valuesOf fields "tags" = values
  simp only [fills_none_iff, texts?_eq_some_iff]
  constructor
  · rintro ⟨tags?, ⟨rfl, rfl⟩ | ⟨_, tags, rfl, rfl, rfl⟩, rfl⟩
    · exact .inr ⟨rfl, rfl⟩
    · exact .inl rfl
  · rintro (rfl | ⟨rfl, rfl⟩)
    · exact ⟨some tags, .inr ⟨_, _, rfl, rfl, rfl⟩, rfl⟩
    · exact ⟨none, .inl ⟨rfl, rfl⟩, rfl⟩

theorem finish?_eq_some_iff {d : Draft} : d.finish? = some node ↔
    d.hostname? = some node.hostname ∧ d.address? = some node.address ∧
      d.status? = some node.status ∧ d.tags?.getD [] = node.tags := by
  obtain ⟨hostname, address, status, tags⟩ := node
  simp only [Draft.finish?, Option.bind_eq_bind, Option.bind_eq_some_iff, Option.some.injEq,
    Node.mk.injEq]
  constructor
  · rintro ⟨_, hhostname, _, haddress, _, hstatus, rfl, rfl, rfl, rfl⟩
    exact ⟨hhostname, haddress, hstatus, rfl⟩
  · rintro ⟨hhostname, haddress, hstatus, htags⟩
    exact ⟨_, hhostname, _, haddress, _, hstatus, rfl, rfl, rfl, htags⟩

theorem ofJson?_object : ofJson? (.object fields) = some node ↔ Describes fields node := by
  simp only [ofJson?, Option.bind_eq_bind, Option.bind_eq_some_iff, foldlM_set_eq_some_iff,
    finish?_eq_some_iff]
  constructor
  · rintro ⟨d, ⟨hnamed, hhostname, haddress, hstatus, htags⟩, hsame, hsame', hsame'', htags'⟩
    rw [hsame] at hhostname
    rw [hsame'] at haddress
    rw [hsame''] at hstatus
    exact ⟨hnamed, fills_text_iff.mp hhostname, fills_text_iff.mp haddress,
      fills_text_iff.mp hstatus, fills_texts_iff.mp ⟨d.tags?, htags, htags'⟩⟩
  · rintro ⟨hnamed, hhostname, haddress, hstatus, htags⟩
    obtain ⟨tags?, htags, htags'⟩ := fills_texts_iff.mpr htags
    exact ⟨⟨some node.hostname, some node.address, some node.status, tags?⟩,
      ⟨hnamed, fills_text_iff.mpr hhostname, fills_text_iff.mpr haddress,
        fills_text_iff.mpr hstatus, htags⟩, rfl, rfl, rfl, htags'⟩

/-- A row is read as if its values had the names of the fields in their order. -/
theorem ofJson?_array (items : List Json.Value) : ofJson? (.array items) =
    if items.length > 4 then none else ofJson? (.object ((fieldNames.map some).zip items)) :=
  rfl

theorem ofJson?_eq_some_iff : ofJson? value = some node ↔ Presents value node := by
  cases value with
  | object fields =>
      rw [ofJson?_object]
      constructor
      · exact .object
      · rintro ⟨hfields⟩
        exact hfields
  | array items =>
      rw [ofJson?_array, Option.ite_none_left_eq_some, ofJson?_object]
      constructor
      · rintro ⟨hlength, hfields⟩
        obtain ⟨hostname, address, status, tags⟩ := node
        obtain ⟨-, hhostname, haddress, hstatus, htags⟩ := hfields
        match items, hlength with
        | [], _ | [_], _ | [_, _], _ => cases hstatus
        | [_, _, _], _ =>
            obtain rfl := List.singleton_inj.mp hhostname
            obtain rfl := List.singleton_inj.mp haddress
            obtain rfl := List.singleton_inj.mp hstatus
            rcases htags with htags | ⟨-, htags⟩
            · cases htags
            · obtain rfl : tags = [] := htags
              exact .row
        | [_, _, _, _], _ =>
            obtain rfl := List.singleton_inj.mp hhostname
            obtain rfl := List.singleton_inj.mp haddress
            obtain rfl := List.singleton_inj.mp hstatus
            rcases htags with htags | ⟨htags, -⟩
            · obtain rfl := List.singleton_inj.mp htags
              exact .taggedRow
            · cases htags
        | _ :: _ :: _ :: _ :: _ :: _, hlength => simp at hlength
      · rintro ⟨⟩
        · refine ⟨by simp, by simp [fieldNames], rfl, rfl, rfl, .inr ⟨rfl, rfl⟩⟩
        · refine ⟨by simp, by simp [fieldNames], rfl, rfl, rfl, .inl rfl⟩
  | null | boolean | number | string =>
      constructor
      · rintro ⟨⟩
      · rintro ⟨⟩

/-! ## One machine in several forms -/

/-- A change of an object that makes no difference to the machine: fields are moved, a field is
added that does not count, or tags are left out that are none. -/
inductive Recast : Fields → Fields → Prop
  | moved {fields fields' : Fields} (hmoved : fields.Perm fields') : Recast fields fields'
  | added {fields : Fields} {name : String} (hname : name ∉ fieldNames) (value : Json.Value) :
      Recast fields ((some name, value) :: fields)
  | untagged {fields : Fields} (hnone : ∀ field ∈ fields, field.1 ≠ some "tags") :
      Recast ((some "tags", .array []) :: fields) fields

/-- The trees differ in such changes at most. -/
inductive Alike : Json.Value → Json.Value → Prop
  | same (value : Json.Value) : Alike value value
  | object {fields fields' : Fields} (hrecast : Relation.EqvGen Recast fields fields') :
      Alike (.object fields) (.object fields')

theorem describes_congr
    (hnamed : (∀ field ∈ fields, field.1 ≠ none) ↔ ∀ field ∈ fields', field.1 ≠ none)
    (hvalue : ∀ name ∈ requiredNames, ∀ value,
      valuesOf fields name = [value] ↔ valuesOf fields' name = [value])
    (htags : ∀ tags, HasTags fields tags ↔ HasTags fields' tags) :
    Describes fields node ↔ Describes fields' node := by
  have hhostname := hvalue "hostname" (by decide)
  have haddress := hvalue "ip" (by decide)
  have hstatus := hvalue "status" (by decide)
  constructor
  · rintro ⟨h, h', h'', h''', htagged⟩
    exact ⟨hnamed.mp h, (hhostname _).mp h', (haddress _).mp h'', (hstatus _).mp h''',
      (htags _).mp htagged⟩
  · rintro ⟨h, h', h'', h''', htagged⟩
    exact ⟨hnamed.mpr h, (hhostname _).mpr h', (haddress _).mpr h'', (hstatus _).mpr h''',
      (htags _).mpr htagged⟩

theorem valuesOf_cons_of_ne {known : String} (hname : name ≠ known) :
    valuesOf ((some name, value) :: fields) known = valuesOf fields known := by
  rw [valuesOf_cons, if_neg]
  rintro ⟨⟩
  exact hname rfl

theorem named_cons_iff : (∀ field ∈ (some name, value) :: fields, field.1 ≠ none) ↔
    ∀ field ∈ fields, field.1 ≠ none := by
  simp

/-- A field occurs as often, wherever it stands. -/
theorem valuesOf_eq_of_perm (hmoved : fields.Perm fields') {values : List Json.Value}
    (hshort : values.length ≤ 1) (name : String) :
    valuesOf fields name = values ↔ valuesOf fields' name = values := by
  have hperm : (valuesOf fields name).Perm (valuesOf fields' name) := (hmoved.filter _).map _
  match values, hshort with
  | [], _ =>
      constructor <;> intro hvalues <;> rw [hvalues] at hperm
      · exact List.perm_nil.mp hperm.symm
      · exact List.perm_nil.mp hperm
  | [value], _ =>
      constructor <;> intro hvalues <;> rw [hvalues] at hperm
      · exact List.perm_singleton.mp hperm.symm
      · exact List.perm_singleton.mp hperm

theorem describes_iff_of_recast (hrecast : Recast fields fields') :
    Describes fields node ↔ Describes fields' node := by
  cases hrecast with
  | moved hmoved =>
      refine describes_congr ?_ (fun name _ value => ?_) fun tags => ?_
      · simp only [hmoved.mem_iff]
      · exact valuesOf_eq_of_perm hmoved (by simp) name
      · exact or_congr (valuesOf_eq_of_perm hmoved (by simp) "tags")
          (and_congr_left' (valuesOf_eq_of_perm hmoved (by simp) "tags"))
  | @added _ name hname value =>
      have hother {known : String} (hknown : known ∈ fieldNames) :
          valuesOf ((some name, value) :: fields) known = valuesOf fields known :=
        valuesOf_cons_of_ne (ne_of_mem_of_not_mem hknown hname).symm
      refine describes_congr named_cons_iff.symm (fun known hknown _ => ?_) fun tags => ?_
      · have hrequired : requiredNames ⊆ fieldNames := by decide
        rw [hother (hrequired hknown)]
      · unfold HasTags
        rw [hother (by decide)]
  | untagged hnone =>
      refine describes_congr named_cons_iff (fun known hknown _ => ?_) fun tags => ?_
      · rw [valuesOf_cons_of_ne]
        rintro rfl
        exact absurd hknown (by decide)
      · have hempty : valuesOf fields' "tags" = [] := by
          simpa [valuesOf, List.filter_eq_nil_iff] using hnone
        unfold HasTags
        rw [valuesOf_cons, if_pos rfl, hempty]
        cases tags <;> simp [textsValue]

/-- A tree that differs from another in nothing that counts stands for the same machine, or for
none just as well. -/
theorem ofJson?_of_alike {value' : Json.Value} (halike : Alike value value') :
    ofJson? value = ofJson? value' := by
  cases halike with
  | same => rfl
  | @object fields fields' hrecast =>
      have hsame : ∀ node, Describes fields node ↔ Describes fields' node := by
        intro node
        induction hrecast with
        | rel _ _ hrecast => exact describes_iff_of_recast hrecast
        | refl => exact Iff.rfl
        | symm _ _ _ ih => exact ih.symm
        | trans _ _ _ _ _ ih ih' => exact ih.trans ih'
      exact Option.ext fun node => ofJson?_object.trans ((hsame node).trans ofJson?_object.symm)

/-! ## Written machines -/

/-- The tree that is written for the machine. -/
def tree (node : Node) : Json.Value :=
  .object [(some "hostname", textValue node.hostname), (some "ip", textValue node.address),
    (some "status", textValue node.status), (some "tags", textsValue node.tags)]

theorem presents_tree (node : Node) : Presents node.tree node :=
  .object ⟨by simp, rfl, rfl, rfl, .inl rfl⟩

theorem writes_texts (texts : List String) :
    Json.Writes (Json.Writer.array (texts.map Json.Writer.string)) (textsValue texts) :=
  Json.writes_array_map Json.writes_string texts

theorem writes_toJson (node : Node) : Json.Writes node.toJson node.tree := by
  apply Json.writes_object
  exact .cons ⟨rfl, Json.writes_string _⟩ (.cons ⟨rfl, Json.writes_string _⟩
    (.cons ⟨rfl, Json.writes_string _⟩ (.cons ⟨rfl, writes_texts _⟩ .nil)))

end Node

/-! ## Lists of machines -/

namespace NodeList

variable {body body' : Bytes} {items items' : List Json.Value} {nodes : List Node}

/-- The trees differ in nothing that counts. -/
inductive Alike : Json.Value → Json.Value → Prop
  | same (value : Json.Value) : Alike value value
  | items {items items' : List Json.Value} (hitems : List.Forall₂ Node.Alike items items') :
      Alike (.array items) (.array items')

theorem decode?_of_items (hbody : Json.Holds body (.array items)) :
    decode? body = items.mapM Node.ofJson? := by
  rw [decode?, Json.read?_of_holds hbody]

/-- The bodies that are read are lists of trees that stand for machines. -/
theorem decode?_eq_some_iff : decode? body = some nodes ↔
    ∃ items, Json.Holds body (.array items) ∧ List.Forall₂ Node.Presents items nodes := by
  have hnodes : ∀ items : List Json.Value, items.mapM Node.ofJson? = some nodes ↔
      List.Forall₂ Node.Presents items nodes := by
    intro items
    simp only [mapM_eq_some_iff, Node.ofJson?_eq_some_iff]
  constructor
  · intro hdecode
    unfold decode? at hdecode
    split at hdecode
    next items hread => exact ⟨items, Json.read?_eq_some_iff.mp hread, (hnodes items).mp hdecode⟩
    next => cases hdecode
  · rintro ⟨items, hbody, hitems⟩
    rw [decode?_of_items hbody]
    exact (hnodes items).mpr hitems

theorem holds_encode (nodes : List Node) :
    Json.Holds (encode nodes) (.array (nodes.map Node.tree)) :=
  Json.holds_of_writes (Json.writes_array_map Node.writes_toJson nodes)

/-- What is written is read back. -/
theorem decode?_encode (nodes : List Node) : decode? (encode nodes) = some nodes := by
  refine decode?_eq_some_iff.mpr ⟨nodes.map Node.tree, holds_encode nodes, ?_⟩
  rw [List.forall₂_map_left_iff]
  exact List.forall₂_same.mpr fun node _ => node.presents_tree

theorem mapM_ofJson?_of_alike (halike : List.Forall₂ Node.Alike items items') :
    items.mapM Node.ofJson? = items'.mapM Node.ofJson? := by
  induction halike with
  | nil => rfl
  | cons hvalue _ ih => rw [List.mapM_cons, List.mapM_cons, Node.ofJson?_of_alike hvalue, ih]

/-- It makes no difference which of several forms a list has. -/
theorem decode?_of_alike {value value' : Json.Value} (hbody : Json.Holds body value)
    (hbody' : Json.Holds body' value') (halike : Alike value value') :
    decode? body = decode? body' := by
  cases halike with
  | same => rw [decode?, decode?, Json.read?_of_holds hbody, Json.read?_of_holds hbody']
  | items hitems =>
      rw [decode?_of_items hbody, decode?_of_items hbody', mapM_ofJson?_of_alike hitems]

/-! ## Lists that are refused -/

/-- One object that stands for no machine spoils the list. -/
theorem decode?_of_object {fields : Node.Fields} (hbody : Json.Holds body (.array items))
    (hobject : .object fields ∈ items) (hno : ∀ node, ¬Node.Describes fields node) :
    decode? body = none := by
  rw [Option.eq_none_iff_forall_ne_some]
  intro nodes hdecode
  rw [decode?_of_items hbody, mapM_eq_some_iff] at hdecode
  obtain ⟨node, hnode⟩ := exists_of_forall₂ hdecode hobject
  exact hno node (Node.ofJson?_object.mp hnode)

theorem decode?_of_repeated {fields : Node.Fields} {name : String}
    (hbody : Json.Holds body (.array items)) (hobject : .object fields ∈ items)
    (hname : name ∈ Node.fieldNames) (hrepeated : 2 ≤ (Node.valuesOf fields name).length) :
    decode? body = none := by
  refine decode?_of_object hbody hobject fun node hfields => ?_
  have hshort : (Node.valuesOf fields name).length ≤ 1 := by
    simp only [Node.fieldNames, List.mem_cons, List.not_mem_nil, or_false] at hname
    rcases hname with rfl | rfl | rfl | rfl
    · simp [hfields.hostname]
    · simp [hfields.address]
    · simp [hfields.status]
    · rcases hfields.tags with htags | ⟨htags, -⟩ <;> simp [htags]
  omega

theorem decode?_of_missing {fields : Node.Fields} {name : String}
    (hbody : Json.Holds body (.array items)) (hobject : .object fields ∈ items)
    (hname : name ∈ Node.requiredNames) (hmissing : Node.valuesOf fields name = []) :
    decode? body = none := by
  refine decode?_of_object hbody hobject fun node hfields => ?_
  simp only [Node.requiredNames, List.mem_cons, List.not_mem_nil, or_false] at hname
  rcases hname with rfl | rfl | rfl
  · simp [hfields.hostname] at hmissing
  · simp [hfields.address] at hmissing
  · simp [hfields.status] at hmissing

/-- Something that is no blank behind the list spoils it, too. -/
theorem decode?_of_trailing {s rest : Json.Reader.Symbols} {c : Option Char}
    (hgap : Json.Gap (Text.decodeBytes body) s) (hs : Json.Spells s (.array items) rest)
    (hc : c ∈ rest) (hblank : Json.Reader.isSpace c = false) : decode? body = none := by
  rw [decode?, Json.read?_of_trailing hgap hs hc hblank]

end NodeList

end WakeRouter
