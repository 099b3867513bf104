import Sitewright.Markup.Printer
import Sitewright.Proofs.Text.Codes

/-!
# Written markup determines the tree

Elements with literal attributes and flags, in which there is nothing, one text, or elements, are
read back from what a dialect writes, up to the values that the dialect spells alike. For where an
element, an attribute or a text ends does not depend on what comes after it: a name goes on until a
character that no name holds, a value until its quote, a text until a bracket, and the lines of the
children are indented more than the end of the element.
-/

namespace Sitewright.Markup

def nameStops : List Char := [' ', '/', '=', '>']

structure IsName (name : String) : Prop where
  ne_empty : name ≠ ""
  no_stop : ∀ c ∈ name.toList, c ∉ nameStops

def isNameChar (c : Char) : Bool := c.isAlphanum || ['-', '_', ':'].contains c

theorem isName_of_chars {name : String} (hne : name ≠ "") (h : name.toList.all isNameChar = true) :
    IsName name := by
  refine ⟨hne, fun c hc hstop => ?_⟩
  have hnone : nameStops.all (! isNameChar ·) = true := rfl
  have hno := List.all_eq_true.1 hnone c hstop
  rw [List.all_eq_true.1 h c hc] at hno
  cases hno

inductive IsStatic : String × Attr → Prop
  | literal {key : String} (hkey : IsName key) (value : String) : IsStatic (key, .literal value)
  | flag {key : String} (hkey : IsName key) : IsStatic (key, .flag)

theorem IsStatic.isName {a : String × Attr} (h : IsStatic a) : IsName a.1 := by
  cases h with
  | literal hkey value => exact hkey
  | flag hkey => exact hkey

/-- An element with nothing in it, with one text, or with elements of this kind. Those with a tag in
`bare` have nothing in them, those with a tag in `verbatim` no text. -/
inductive IsRegular (bare verbatim : List String) : Child → Prop
  | empty {tag : String} {attrs : List (String × Attr)} (htag : IsName tag)
      (hattrs : ∀ a ∈ attrs, IsStatic a) : IsRegular bare verbatim (.element tag attrs [])
  | text {tag : String} {attrs : List (String × Attr)} {s : String} (htag : IsName tag)
      (hattrs : ∀ a ∈ attrs, IsStatic a) (hbare : tag ∉ bare) (hverbatim : tag ∉ verbatim)
      (hs : s ≠ "") : IsRegular bare verbatim (.element tag attrs [.text s])
  | elements {tag : String} {attrs : List (String × Attr)} {children : List Child}
      (htag : IsName tag) (hattrs : ∀ a ∈ attrs, IsStatic a) (hbare : tag ∉ bare)
      (hne : children ≠ []) (hchildren : ∀ c ∈ children, IsRegular bare verbatim c) :
      IsRegular bare verbatim (.element tag attrs children)

structure Dialect.Spelling (d : Dialect) (bare verbatim : List String) where
  value : String → String
  text : String → String
  attrText_literal : ∀ key v, d.attrText key (.literal v) = " " ++ key ++ "=\"" ++ value v ++ "\""
  attrText_flag : ∀ key, d.attrText key .flag = " " ++ key
  quote_notMem_value : ∀ v, '"' ∉ (value v).toList
  textIn_eq : ∀ {tag}, tag ∉ verbatim → ∀ s, d.textIn tag s = text s
  text_injective : Function.Injective text
  text_empty : text "" = ""
  lt_notMem_text : ∀ s, '<' ∉ (text s).toList
  ending_nil : ∀ {tag ending}, d.ending tag [] = some ending →
    (tag ∈ bare ∧ ending = ">") ∨ ending = " />"
  ending_none : ∀ {tag children}, tag ∉ bare → children ≠ [] → d.ending tag children = none

def Attr.mapLiteral (f : String → String) : Attr → Attr
  | .literal value => .literal (f value)
  | .dynamic expression => .dynamic expression
  | .flag => .flag

def mapLiterals (f : String → String) (attrs : List (String × Attr)) : List (String × Attr) :=
  attrs.map fun a => (a.1, a.2.mapLiteral f)

mutual
def Child.mapLiterals (f : String → String) : Child → Child
  | .element tag attrs children =>
    .element tag (Markup.mapLiterals f attrs) (Child.mapAllLiterals f children)
  | .text s => .text s
  | .raw markup => .raw markup
  | .expression s => .expression s

def Child.mapAllLiterals (f : String → String) : List Child → List Child
  | [] => []
  | child :: rest => child.mapLiterals f :: Child.mapAllLiterals f rest
end

def literals (attrs : List (String × Attr)) : List String :=
  attrs.filterMap fun a => match a.2 with
    | .literal value => some value
    | _ => none

mutual
def Child.literals : Child → List String
  | .element _ attrs children => Markup.literals attrs ++ Child.allLiterals children
  | _ => []

def Child.allLiterals : List Child → List String
  | [] => []
  | child :: rest => child.literals ++ Child.allLiterals rest
end

variable {d : Dialect} {bare verbatim : List String} {tag parent parent' : String} {depth : Nat}
  {attrs attrs' : List (String × Attr)} {children children' : List Child} {c c' : Child}
  {x y : List Char}

/-! ### Trees with other values -/

theorem mapLiterals_leftInverse {f g : String → String} (h : ∀ v ∈ literals attrs, g (f v) = v) :
    mapLiterals g (mapLiterals f attrs) = attrs := by
  induction attrs with
  | nil => rfl
  | cons a attrs ih =>
    obtain ⟨key, attr⟩ := a
    cases attr with
    | literal value =>
      obtain ⟨hvalue, hrest⟩ := List.forall_mem_cons.1 h
      change (key, Attr.literal (g (f value))) :: mapLiterals g (mapLiterals f attrs) = _
      rw [hvalue, ih hrest]
    | dynamic expression => exact congrArg ((key, Attr.dynamic expression) :: ·) (ih h)
    | flag => exact congrArg ((key, Attr.flag) :: ·) (ih h)

mutual
/-- A change of values is undone by what undoes it on the values of the tree. -/
theorem Child.mapLiterals_leftInverse {f g : String → String} :
    ∀ {c : Child}, (∀ v ∈ c.literals, g (f v) = v) → (c.mapLiterals f).mapLiterals g = c
  | .element tag attrs children, h => by
    obtain ⟨hattrs, hchildren⟩ := List.forall_mem_append.1 h
    rw [Child.mapLiterals, Child.mapLiterals, Markup.mapLiterals_leftInverse hattrs,
      Child.mapAllLiterals_leftInverse hchildren]
  | .text _, _ => rfl
  | .raw _, _ => rfl
  | .expression _, _ => rfl

theorem Child.mapAllLiterals_leftInverse {f g : String → String} :
    ∀ {cs : List Child}, (∀ v ∈ Child.allLiterals cs, g (f v) = v) →
      Child.mapAllLiterals g (Child.mapAllLiterals f cs) = cs
  | [], _ => rfl
  | c :: cs, h => by
    obtain ⟨hfirst, hrest⟩ := List.forall_mem_append.1 h
    rw [Child.mapAllLiterals, Child.mapAllLiterals, Child.mapLiterals_leftInverse hfirst,
      Child.mapAllLiterals_leftInverse hrest]
end

theorem Element.toChild_injective : Function.Injective Element.toChild := by
  rintro ⟨tag, attrs, children⟩ ⟨tag', attrs', children'⟩ h
  obtain ⟨rfl, rfl, rfl⟩ := Child.element.inj h
  rfl

/-- Elements are the same if their values can be had back from what they were changed to. -/
theorem Element.eq_of_mapLiterals_eq {f g : String → String} {e e' : Element}
    (h : ∀ v ∈ e.toChild.literals, g (f v) = v) (h' : ∀ v ∈ e'.toChild.literals, g (f v) = v)
    (heq : e.toChild.mapLiterals f = e'.toChild.mapLiterals f) : e = e' := by
  have hback := congrArg (Child.mapLiterals g) heq
  rw [Child.mapLiterals_leftInverse h, Child.mapLiterals_leftInverse h'] at hback
  exact Element.toChild_injective hback

@[simp] theorem Child.mapAllLiterals_eq_map (f : String → String) (cs : List Child) :
    Child.mapAllLiterals f cs = cs.map (Child.mapLiterals f) := by
  induction cs with
  | nil => rfl
  | cons c cs ih => rw [Child.mapAllLiterals, ih, List.map_cons]

theorem Child.isElement_mapLiterals (f : String → String) (c : Child) :
    (c.mapLiterals f).isElement = c.isElement := by
  cases c <;> rfl

theorem Dialect.inlineChild_mapLiterals (d : Dialect) (tag : String) (f : String → String)
    (c : Child) : d.inlineChild tag (c.mapLiterals f) = d.inlineChild tag c := by
  cases c <;> rfl

mutual
/-- What the text of no attribute shows, the text of a tree does not show. -/
theorem Dialect.write_mapLiterals {f : String → String}
    (hattr : ∀ key a, d.attrText key (Attr.mapLiteral f a) = d.attrText key a)
    (hending : ∀ tag cs, d.ending tag (Child.mapAllLiterals f cs) = d.ending tag cs) :
    ∀ (c : Child) (depth : Nat) (parent : String),
      d.write depth parent (c.mapLiterals f) = d.write depth parent c
  | .element tag attrs children, depth, parent => by
    have hattrs : d.attributes (mapLiterals f attrs) = d.attributes attrs := by
      simp [Dialect.attributes, mapLiterals, hattr, Function.comp_def]
    have hany : (Child.mapAllLiterals f children).any Child.isElement =
        children.any Child.isElement := by
      simp [Child.isElement_mapLiterals, Function.comp_def]
    have hinline : (Child.mapAllLiterals f children).map (d.inlineChild tag) =
        children.map (d.inlineChild tag) := by
      simp [Dialect.inlineChild_mapLiterals, Function.comp_def]
    rw [Child.mapLiterals, Dialect.write, Dialect.write, hattrs, hending, hany, hinline,
      Dialect.writeAll_mapLiterals hattr hending children]
  | .text _, _, _ => rfl
  | .raw _, _, _ => rfl
  | .expression _, _, _ => rfl

theorem Dialect.writeAll_mapLiterals {f : String → String}
    (hattr : ∀ key a, d.attrText key (Attr.mapLiteral f a) = d.attrText key a)
    (hending : ∀ tag cs, d.ending tag (Child.mapAllLiterals f cs) = d.ending tag cs) :
    ∀ (cs : List Child) (depth : Nat) (parent : String),
      d.writeAll depth parent (Child.mapAllLiterals f cs) = d.writeAll depth parent cs
  | [], _, _ => rfl
  | c :: cs, depth, parent => by
    rw [Child.mapAllLiterals, Dialect.writeAll, Dialect.writeAll,
      Dialect.write_mapLiterals hattr hending c, Dialect.writeAll_mapLiterals hattr hending cs]
end

/-! ### The parts of a written element -/

def Dialect.content (d : Dialect) (depth : Nat) (tag : String) (children : List Child) : String :=
  if children.any Child.isElement then
    "\n" ++ d.writeAll (depth + 1) tag children ++ indentation depth
  else String.join (children.map (d.inlineChild tag))

def Dialect.remainder (d : Dialect) (depth : Nat) (tag : String) (children : List Child) : String :=
  match d.ending tag children with
  | some ending => ending ++ "\n"
  | none => ">" ++ d.content depth tag children ++ "</" ++ tag ++ ">\n"

theorem toList_write (d : Dialect) (depth : Nat) (parent tag : String)
    (attrs : List (String × Attr)) (children : List Child) :
    (d.write depth parent (.element tag attrs children)).toList =
      List.replicate (2 * depth) ' ' ++ '<' :: (tag.toList ++
        ((d.attributes attrs).toList ++ (d.remainder depth tag children).toList)) := by
  rw [Dialect.write, Dialect.remainder]
  cases d.ending tag children with
  | some ending => simp [indentation]
  | none => simp [indentation, Dialect.content]

theorem IsName.exists_cons {name : String} (h : IsName name) :
    ∃ first rest, name.toList = first :: rest ∧ first ∉ nameStops := by
  cases hname : name.toList with
  | nil => exact absurd (by simpa using hname) h.ne_empty
  | cons first rest => exact ⟨first, rest, rfl, h.no_stop first (hname ▸ List.mem_cons_self)⟩

theorem IsRegular.exists_element (h : IsRegular bare verbatim c) : ∃ tag attrs children,
    c = .element tag attrs children ∧ IsName tag ∧ ∀ a ∈ attrs, IsStatic a := by
  cases h with
  | empty htag hattrs => exact ⟨_, _, _, rfl, htag, hattrs⟩
  | text htag hattrs => exact ⟨_, _, _, rfl, htag, hattrs⟩
  | elements htag hattrs => exact ⟨_, _, _, rfl, htag, hattrs⟩

/-- A written element begins, after its indentation, with a bracket and a name. -/
theorem IsRegular.exists_write (h : IsRegular bare verbatim c) (d : Dialect) (depth : Nat)
    (parent : String) : ∃ first rest, first ∉ nameStops ∧
      (d.write depth parent c).toList = List.replicate (2 * depth) ' ' ++ '<' :: first :: rest := by
  obtain ⟨tag, attrs, children, rfl, htag, -⟩ := h.exists_element
  obtain ⟨first, rest, hname, hfirst⟩ := htag.exists_cons
  exact ⟨first, _, hfirst, by rw [toList_write, hname, List.cons_append]⟩

/-- The end of a start tag, which is no further attribute. -/
def EndsTag (x : List Char) : Prop := ∃ rest, x = '>' :: rest ∨ x = ' ' :: '/' :: rest

namespace Dialect.Spelling

/-! ### Attributes -/

theorem attributes_cons (d : Dialect) (a : String × Attr) (attrs : List (String × Attr)) :
    d.attributes (a :: attrs) = d.attrText a.1 a.2 ++ d.attributes attrs := by
  simp [Dialect.attributes]

def attrTail (s : d.Spelling bare verbatim) : Attr → List Char
  | .literal value => '=' :: '"' :: ((s.value value).toList ++ ['"'])
  | _ => []

theorem toList_attrText (s : d.Spelling bare verbatim) {a : String × Attr} (ha : IsStatic a) :
    (d.attrText a.1 a.2).toList = ' ' :: (a.1.toList ++ s.attrTail a.2) := by
  cases ha with
  | literal hkey value =>
    rw [s.attrText_literal]
    simp [attrTail]
  | flag hkey =>
    rw [s.attrText_flag]
    simp [attrTail]

theorem exists_attrText (s : d.Spelling bare verbatim) {a : String × Attr} (ha : IsStatic a) :
    ∃ first rest, first ∉ nameStops ∧ (d.attrText a.1 a.2).toList = ' ' :: first :: rest := by
  obtain ⟨first, rest, hname, hfirst⟩ := ha.isName.exists_cons
  exact ⟨first, _, hfirst, by rw [s.toList_attrText ha, hname, List.cons_append]⟩

/-- After an attribute there is another one, or the end of the tag. -/
theorem exists_attributes (s : d.Spelling bare verbatim) (hattrs : ∀ a ∈ attrs, IsStatic a)
    (hx : EndsTag x) : ∃ first rest, (d.attributes attrs).toList ++ x = first :: rest ∧
      (first = ' ' ∨ first = '>') := by
  cases attrs with
  | nil =>
    obtain ⟨rest, rfl | rfl⟩ := hx
    · exact ⟨_, _, rfl, .inr rfl⟩
    · exact ⟨_, _, rfl, .inl rfl⟩
  | cons a attrs =>
    obtain ⟨first, rest, -, ha⟩ := s.exists_attrText (hattrs a List.mem_cons_self)
    exact ⟨' ', _, by rw [attributes_cons, String.toList_append, ha]; rfl, .inl rfl⟩

theorem attribute_ne_endsTag (s : d.Spelling bare verbatim) {a : String × Attr} (ha : IsStatic a)
    (hx : EndsTag x) : (d.attrText a.1 a.2).toList ++ y ≠ x := by
  obtain ⟨first, rest, hfirst, hattr⟩ := s.exists_attrText ha
  rw [hattr]
  rintro rfl
  obtain ⟨rest', h | h⟩ := hx
  · cases h
  · obtain ⟨rfl, -⟩ := List.cons.inj (List.cons.inj h).2
    exact hfirst (by decide)

/-- What comes after the name of an attribute does not belong to a name. -/
theorem exists_attrTail (s : d.Spelling bare verbatim) (a : Attr) {c : Char} (hc : c ∈ nameStops)
    (x : List Char) : ∃ first rest, s.attrTail a ++ c :: x = first :: rest ∧ first ∈ nameStops := by
  cases a with
  | literal value => exact ⟨'=', _, rfl, by decide⟩
  | dynamic expression => exact ⟨c, x, rfl, hc⟩
  | flag => exact ⟨c, x, rfl, hc⟩

theorem attrTail_inj (s : d.Spelling bare verbatim) {a b : String × Attr} (ha : IsStatic a)
    (hb : IsStatic b) {c e : Char} (hc : c = ' ' ∨ c = '>') (he : e = ' ' ∨ e = '>')
    (h : s.attrTail a.2 ++ c :: x = s.attrTail b.2 ++ e :: y) :
    a.2.mapLiteral s.value = b.2.mapLiteral s.value ∧ c :: x = e :: y := by
  cases ha with
  | literal _ value =>
    cases hb with
    | literal _ value' =>
      simp only [attrTail, List.cons_append, List.append_assoc, List.cons.injEq, true_and] at h
      obtain ⟨hvalues, hrest⟩ := append_cons_inj (p := (· ≠ '"'))
        (List.forall_mem_ne'.2 (s.quote_notMem_value value))
        (List.forall_mem_ne'.2 (s.quote_notMem_value value'))
        (by decide) (by decide) h
      refine ⟨?_, (List.cons.inj hrest).2⟩
      rw [Attr.mapLiteral, Attr.mapLiteral, String.toList_injective hvalues]
    | flag _ =>
      obtain ⟨rfl, -⟩ := List.cons.inj h
      simp at he
  | flag _ =>
    cases hb with
    | literal _ value' =>
      obtain ⟨rfl, -⟩ := List.cons.inj h
      simp at hc
    | flag _ => exact ⟨rfl, h⟩

/-- An attribute is read up to its end, whatever comes after it. -/
theorem attribute_inj (s : d.Spelling bare verbatim) {a b : String × Attr} (ha : IsStatic a)
    (hb : IsStatic b) {c e : Char} (hc : c = ' ' ∨ c = '>') (he : e = ' ' ∨ e = '>')
    (h : (d.attrText a.1 a.2).toList ++ c :: x = (d.attrText b.1 b.2).toList ++ e :: y) :
    (a.1, a.2.mapLiteral s.value) = (b.1, b.2.mapLiteral s.value) ∧ c :: x = e :: y := by
  have hc' : c ∈ nameStops := by rcases hc with rfl | rfl <;> decide
  have he' : e ∈ nameStops := by rcases he with rfl | rfl <;> decide
  rw [s.toList_attrText ha, s.toList_attrText hb] at h
  simp only [List.cons_append, List.append_assoc, List.cons.injEq, true_and] at h
  -- the name ends before an equals sign or before what comes after the attribute
  obtain ⟨first, rest, htail, hfirst⟩ := s.exists_attrTail a.2 hc' x
  obtain ⟨first', rest', htail', hfirst'⟩ := s.exists_attrTail b.2 he' y
  rw [htail, htail'] at h
  obtain ⟨hkeys, htails⟩ := append_cons_inj ha.isName.no_stop hb.isName.no_stop
    (not_not.2 hfirst) (not_not.2 hfirst') h
  rw [← htail, ← htail'] at htails
  obtain ⟨hattrs, hrest⟩ := s.attrTail_inj ha hb hc he htails
  exact ⟨Prod.ext (String.toList_injective hkeys) hattrs, hrest⟩

theorem attributes_inj (s : d.Spelling bare verbatim) (hattrs : ∀ a ∈ attrs, IsStatic a)
    (hattrs' : ∀ a ∈ attrs', IsStatic a) (hx : EndsTag x) (hy : EndsTag y)
    (h : (d.attributes attrs).toList ++ x = (d.attributes attrs').toList ++ y) :
    mapLiterals s.value attrs = mapLiterals s.value attrs' ∧ x = y := by
  induction attrs generalizing attrs' with
  | nil =>
    cases attrs' with
    | nil => exact ⟨rfl, h⟩
    | cons b attrs' =>
      rw [attributes_cons, String.toList_append, List.append_assoc] at h
      exact absurd h.symm (s.attribute_ne_endsTag (hattrs' b List.mem_cons_self) hx)
  | cons a attrs ih =>
    obtain ⟨ha, hattrs⟩ := List.forall_mem_cons.1 hattrs
    rw [attributes_cons, String.toList_append, List.append_assoc] at h
    cases attrs' with
    | nil => exact absurd h (s.attribute_ne_endsTag ha hy)
    | cons b attrs' =>
      obtain ⟨hb, hattrs'⟩ := List.forall_mem_cons.1 hattrs'
      rw [attributes_cons, String.toList_append, List.append_assoc] at h
      -- after the first attributes there is a space or a bracket, where a flag's name has to end
      obtain ⟨first, rest, hrest, hfirst⟩ := s.exists_attributes hattrs hx
      obtain ⟨first', rest', hrest', hfirst'⟩ := s.exists_attributes hattrs' hy
      rw [hrest, hrest'] at h
      obtain ⟨hhead, htail⟩ := s.attribute_inj ha hb hfirst hfirst' h
      obtain ⟨hattrs, hxy⟩ := ih hattrs hattrs' (by rw [hrest, hrest', htail])
      refine ⟨?_, hxy⟩
      rw [mapLiterals, mapLiterals, List.map_cons, List.map_cons, hhead]
      exact congrArg _ hattrs

/-! ### Contents -/

/-- The ways in which a regular element goes on after its attributes. -/
inductive GoesOn (s : d.Spelling bare verbatim) (depth : Nat) (tag : String) :
    List Child → List Char → Prop
  | closed {ending : String} (hending : d.ending tag [] = some ending) :
      GoesOn s depth tag [] (ending.toList ++ ['\n'])
  | text {children : List Child} (t : String) (hending : d.ending tag [] ≠ some ">")
      (hchildren : children = if t = "" then [] else [.text t]) :
      GoesOn s depth tag children
        ('>' :: ((s.text t).toList ++ '<' :: '/' :: (tag.toList ++ ['>', '\n'])))
  | elements {children : List Child} (hending : d.ending tag [] ≠ some ">") (hne : children ≠ [])
      (hchildren : ∀ c ∈ children, IsRegular bare verbatim c) :
      GoesOn s depth tag children
        ('>' :: '\n' :: ((d.writeAll (depth + 1) tag children).toList ++
          (List.replicate (2 * depth) ' ' ++ '<' :: '/' :: (tag.toList ++ ['>', '\n']))))

theorem ending_ne (s : d.Spelling bare verbatim) (hbare : tag ∉ bare) :
    d.ending tag [] ≠ some ">" := by
  intro hending
  rcases s.ending_nil hending with ⟨hmem, -⟩ | hslash
  · exact hbare hmem
  · exact absurd hslash (by decide)

theorem goesOn_remainder (s : d.Spelling bare verbatim) (depth : Nat)
    (h : IsRegular bare verbatim (.element tag attrs children)) :
    s.GoesOn depth tag children (d.remainder depth tag children).toList := by
  cases h with
  | empty htag hattrs =>
    cases hending : d.ending tag [] with
    | some ending =>
      rw [Dialect.remainder, hending, String.toList_append]
      exact .closed hending
    | none =>
      have hwritten : (d.remainder depth tag []).toList =
          '>' :: ((s.text "").toList ++ '<' :: '/' :: (tag.toList ++ ['>', '\n'])) := by
        simp [Dialect.remainder, hending, Dialect.content, s.text_empty]
      rw [hwritten]
      exact .text "" (by rw [hending]; simp) rfl
  | @text _ _ t htag hattrs hbare hverbatim hne =>
    have hwritten : (d.remainder depth tag [.text t]).toList =
        '>' :: ((s.text t).toList ++ '<' :: '/' :: (tag.toList ++ ['>', '\n'])) := by
      simp [Dialect.remainder, s.ending_none hbare, Dialect.content, Child.isElement,
        Child.element?, Dialect.inlineChild, s.textIn_eq hverbatim]
    rw [hwritten]
    exact .text t (s.ending_ne hbare) (if_neg hne).symm
  | elements htag hattrs hbare hne hchildren =>
    have hany : children.any Child.isElement = true := by
      obtain ⟨c, hc⟩ := List.exists_mem_of_ne_nil _ hne
      obtain ⟨_, _, _, rfl, -⟩ := (hchildren c hc).exists_element
      exact List.any_eq_true.2 ⟨_, hc, rfl⟩
    have hwritten : (d.remainder depth tag children).toList =
        '>' :: '\n' :: ((d.writeAll (depth + 1) tag children).toList ++
          (List.replicate (2 * depth) ' ' ++ '<' :: '/' :: (tag.toList ++ ['>', '\n']))) := by
      simp [Dialect.remainder, s.ending_none hbare hne, Dialect.content, hany, indentation]
    rw [hwritten]
    exact .elements (s.ending_ne hbare) hne hchildren

theorem GoesOn.endsTag {s : d.Spelling bare verbatim} (h : s.GoesOn depth tag children x) :
    EndsTag (x ++ y) := by
  cases h with
  | closed hending =>
    rcases s.ending_nil hending with ⟨-, rfl⟩ | rfl
    · exact ⟨_, .inl rfl⟩
    · exact ⟨_, .inr rfl⟩
  | text t hending hchildren => exact ⟨_, .inl rfl⟩
  | elements hending hne hchildren => exact ⟨_, .inl rfl⟩

/-- An end without content differs from the end of a start tag with content after it. -/
theorem ending_append_ne (s : d.Spelling bare verbatim) {ending : String}
    (hending : d.ending tag [] = some ending) (hne : d.ending tag [] ≠ some ">") :
    ending.toList ++ x ≠ '>' :: y := by
  rcases s.ending_nil hending with ⟨-, rfl⟩ | rfl
  · exact absurd hending hne
  · intro h
    cases h

/-- A text ends with a bracket, and where elements begin the bracket has a name after it. -/
theorem text_ne_elements (s : d.Spelling bare verbatim) (t : String) (hne : children ≠ [])
    (hchildren : ∀ c ∈ children, IsRegular bare verbatim c) :
    (s.text t).toList ++ '<' :: '/' :: x ≠
      '\n' :: ((d.writeAll (depth + 1) tag children).toList ++ y) := by
  obtain ⟨c, rest, rfl⟩ := List.exists_cons_of_ne_nil hne
  obtain ⟨first, _, hfirst, hwrite⟩ :=
    (hchildren c List.mem_cons_self).exists_write d (depth + 1) tag
  intro h
  rw [Dialect.writeAll, String.toList_append, hwrite] at h
  simp only [List.append_assoc, List.cons_append] at h
  rw [← List.cons_append] at h
  obtain ⟨-, hrest⟩ := append_cons_inj (p := (· ≠ '<'))
    (List.forall_mem_ne'.2 (s.lt_notMem_text t)) (by simp) (by decide) (by decide) h
  obtain ⟨rfl, -⟩ := List.cons.inj (List.cons.inj hrest).2
  exact hfirst (by decide)

/-- What is written for a child is read back up to its end, whatever comes after it. -/
def Legible (s : d.Spelling bare verbatim) (c : Child) : Prop :=
  ∀ {c' : Child} {depth : Nat} {parent parent' : String} {x y : List Char},
    IsRegular bare verbatim c' →
    (d.write depth parent c).toList ++ x = (d.write depth parent' c').toList ++ y →
      c.mapLiterals s.value = c'.mapLiterals s.value ∧ x = y

/-- Less indentation than that of children is the end of the children. -/
theorem end_ne_child (d : Dialect) (hc : IsRegular bare verbatim c) :
    List.replicate (2 * depth) ' ' ++ '<' :: x ≠ (d.write (depth + 1) parent c).toList ++ y := by
  obtain ⟨first, rest, -, hwrite⟩ := hc.exists_write d (depth + 1) parent
  rw [hwrite, List.append_assoc, List.cons_append]
  intro h
  obtain ⟨hspaces, -⟩ := append_cons_inj (p := (· = ' ')) (by simp) (by simp) (by decide)
    (by decide) h
  have hlength := congrArg List.length hspaces
  rw [List.length_replicate, List.length_replicate] at hlength
  omega

theorem writeAll_inj (s : d.Spelling bare verbatim)
    (hchildren : ∀ c ∈ children, IsRegular bare verbatim c ∧ s.Legible c)
    (hchildren' : ∀ c ∈ children', IsRegular bare verbatim c)
    (h : (d.writeAll (depth + 1) tag children).toList ++
        (List.replicate (2 * depth) ' ' ++ '<' :: x) =
      (d.writeAll (depth + 1) tag children').toList ++
        (List.replicate (2 * depth) ' ' ++ '<' :: y)) :
    Child.mapAllLiterals s.value children = Child.mapAllLiterals s.value children' ∧ x = y := by
  induction children generalizing children' with
  | nil =>
    cases children' with
    | nil =>
      rw [Dialect.writeAll] at h
      exact ⟨rfl, (List.cons.inj (List.append_cancel_left (List.append_cancel_left h))).2⟩
    | cons c' rest' =>
      rw [Dialect.writeAll, Dialect.writeAll, String.toList_append, List.append_assoc] at h
      exact absurd h (end_ne_child d (hchildren' c' List.mem_cons_self))
  | cons c rest ih =>
    obtain ⟨⟨hc, hlegible⟩, hrest⟩ := List.forall_mem_cons.1 hchildren
    rw [Dialect.writeAll, String.toList_append, List.append_assoc] at h
    cases children' with
    | nil =>
      rw [Dialect.writeAll] at h
      exact absurd h.symm (end_ne_child d hc)
    | cons c' rest' =>
      obtain ⟨hc', hrest'⟩ := List.forall_mem_cons.1 hchildren'
      rw [Dialect.writeAll, String.toList_append, List.append_assoc] at h
      obtain ⟨hsame, htail⟩ := hlegible hc' h
      obtain ⟨hall, hxy⟩ := ih hrest hrest' htail
      refine ⟨?_, hxy⟩
      rw [Child.mapAllLiterals, Child.mapAllLiterals, hsame, hall]

theorem goesOn_inj {s : d.Spelling bare verbatim} {r r' : List Char}
    (hr : s.GoesOn depth tag children r) (hr' : s.GoesOn depth tag children' r')
    (hlegible : ∀ c ∈ children, IsRegular bare verbatim c → s.Legible c) (h : r ++ x = r' ++ y) :
    Child.mapAllLiterals s.value children = Child.mapAllLiterals s.value children' ∧ x = y := by
  cases hr with
  | closed hending =>
    cases hr' with
    | closed hending' =>
      obtain rfl := Option.some.inj (hending.symm.trans hending')
      exact ⟨rfl, List.append_cancel_left h⟩
    | text t hne _ =>
      rw [List.append_assoc] at h
      exact absurd h (s.ending_append_ne hending hne)
    | elements hne _ _ =>
      rw [List.append_assoc] at h
      exact absurd h (s.ending_append_ne hending hne)
  | text t hne hchildren =>
    cases hr' with
    | closed hending =>
      rw [List.append_assoc] at h
      exact absurd h.symm (s.ending_append_ne hending hne)
    | text t' _ hchildren' =>
      simp only [List.cons_append, List.append_assoc, List.cons.injEq, true_and] at h
      obtain ⟨htexts, hrest⟩ := append_cons_inj (p := (· ≠ '<'))
        (List.forall_mem_ne'.2 (s.lt_notMem_text t))
        (List.forall_mem_ne'.2 (s.lt_notMem_text t')) (by decide) (by decide) h
      obtain rfl := s.text_injective (String.toList_injective htexts)
      refine ⟨by rw [hchildren, hchildren'], ?_⟩
      simpa using hrest
    | elements _ hne' hchildren' =>
      simp only [List.cons_append, List.append_assoc, List.cons.injEq, true_and] at h
      exact absurd h (s.text_ne_elements t hne' hchildren')
  | elements hne hne' hchildren =>
    cases hr' with
    | closed hending =>
      rw [List.append_assoc] at h
      exact absurd h.symm (s.ending_append_ne hending hne)
    | text t _ hchildren' =>
      simp only [List.cons_append, List.append_assoc, List.cons.injEq, true_and] at h
      exact absurd h.symm (s.text_ne_elements t hne' hchildren)
    | elements _ _ hchildren' =>
      simp only [List.cons_append, List.append_assoc, List.cons.injEq, true_and] at h
      obtain ⟨hall, hrest⟩ := s.writeAll_inj
        (fun c hc => ⟨hchildren c hc, hlegible c hc (hchildren c hc)⟩) hchildren' h
      exact ⟨hall, by simpa using hrest⟩

theorem legible_element (s : d.Spelling bare verbatim)
    (h : IsRegular bare verbatim (.element tag attrs children))
    (hlegible : ∀ c ∈ children, IsRegular bare verbatim c → s.Legible c) :
    s.Legible (.element tag attrs children) := by
  intro c' depth parent parent' x y hc' heq
  obtain ⟨tag', attrs', children', rfl, htag', hattrs'⟩ := hc'.exists_element
  obtain ⟨_, _, _, heq', htag, hattrs⟩ := h.exists_element
  obtain ⟨rfl, rfl, rfl⟩ := Child.element.inj heq'
  have hr := s.goesOn_remainder depth h
  have hr' := s.goesOn_remainder depth hc'
  rw [toList_write, toList_write] at heq
  simp only [List.append_assoc, List.cons_append, List.append_cancel_left_eq, List.cons.injEq,
    true_and] at heq
  obtain ⟨first, rest, hrest, hfirst⟩ := s.exists_attributes hattrs hr.endsTag
  obtain ⟨first', rest', hrest', hfirst'⟩ := s.exists_attributes hattrs' hr'.endsTag
  rw [hrest, hrest'] at heq
  obtain ⟨htags, htail⟩ := append_cons_inj htag.no_stop htag'.no_stop
    (by rcases hfirst with rfl | rfl <;> decide) (by rcases hfirst' with rfl | rfl <;> decide) heq
  obtain rfl := String.toList_injective htags
  rw [← hrest, ← hrest'] at htail
  obtain ⟨hattributes, htail⟩ := s.attributes_inj hattrs hattrs' hr.endsTag hr'.endsTag htail
  obtain ⟨hcontents, hxy⟩ := goesOn_inj hr hr' hlegible htail
  refine ⟨?_, hxy⟩
  rw [Child.mapLiterals, Child.mapLiterals, hattributes, hcontents]

theorem legible (s : d.Spelling bare verbatim) (h : IsRegular bare verbatim c) : s.Legible c := by
  induction h with
  | empty htag hattrs => exact s.legible_element (.empty htag hattrs) fun _ hc => nomatch hc
  | text htag hattrs hbare hverbatim hne =>
    refine s.legible_element (.text htag hattrs hbare hverbatim hne) fun c hc hregular => ?_
    -- the only child is a text, which is no regular element
    obtain rfl := List.mem_singleton.1 hc
    cases hregular
  | elements htag hattrs hbare hne hchildren ih =>
    exact s.legible_element (.elements htag hattrs hbare hne hchildren) fun c hc _ => ih c hc

/-! ### Whole texts -/

theorem GoesOn.exists_end {s : d.Spelling bare verbatim} (h : s.GoesOn depth tag children x) :
    ∃ a, x = a ++ ['>', '\n'] := by
  cases h with
  | closed hending =>
    rcases s.ending_nil hending with ⟨-, rfl⟩ | rfl
    · exact ⟨[], rfl⟩
    · exact ⟨[' ', '/'], rfl⟩
  | text t _ _ => exact ⟨'>' :: ((s.text t).toList ++ '<' :: '/' :: tag.toList), by simp⟩
  | elements _ _ _ =>
    exact ⟨'>' :: '\n' :: ((d.writeAll (depth + 1) tag children).toList ++
      (List.replicate (2 * depth) ' ' ++ '<' :: '/' :: tag.toList)), by simp⟩

theorem exists_written (s : d.Spelling bare verbatim) (h : IsRegular bare verbatim c)
    (depth : Nat) (parent : String) : ∃ a, (d.write depth parent c).toList =
      List.replicate (2 * depth) ' ' ++ '<' :: (a ++ ['>', '\n']) := by
  obtain ⟨tag, attrs, children, rfl, -⟩ := h.exists_element
  obtain ⟨a, ha⟩ := (s.goesOn_remainder depth h).exists_end
  exact ⟨tag.toList ++ ((d.attributes attrs).toList ++ a), by rw [toList_write, ha]; simp⟩

/-- Regular elements with the same text are the same, up to the spelling of their values. -/
theorem mapLiterals_eq_of_write_eq (s : d.Spelling bare verbatim) (h : IsRegular bare verbatim c)
    (h' : IsRegular bare verbatim c')
    (heq : d.write depth parent c = d.write depth parent' c') :
    c.mapLiterals s.value = c'.mapLiterals s.value :=
  (s.legible h h' (congrArg (·.toList ++ []) heq)).1

theorem write_eq_of_trimBoth_eq (s : d.Spelling bare verbatim) (h : IsRegular bare verbatim c)
    (h' : IsRegular bare verbatim c')
    (heq : trimBoth (d.write depth parent c) = trimBoth (d.write depth parent' c')) :
    d.write depth parent c = d.write depth parent' c' := by
  obtain ⟨a, ha⟩ := s.exists_written h depth parent
  obtain ⟨a', ha'⟩ := s.exists_written h' depth parent'
  have hspaces : ∀ q ∈ List.replicate (2 * depth) ' ', isBlank q = true := by
    intro q hq
    rw [(List.mem_replicate.1 hq).2]
    decide
  have htrimmed := congrArg String.toList heq
  rw [toList_trimBoth ha hspaces (by decide) (by decide),
    toList_trimBoth ha' hspaces (by decide) (by decide)] at htrimmed
  obtain rfl := List.append_cancel_right (List.cons.inj htrimmed).2
  exact String.toList_injective (ha.trans ha'.symm)

theorem write_eq_of_trimEnd_eq (s : d.Spelling bare verbatim) (h : IsRegular bare verbatim c)
    (h' : IsRegular bare verbatim c')
    (heq : trimEnd (d.write depth parent c) = trimEnd (d.write depth parent' c')) :
    d.write depth parent c = d.write depth parent' c' := by
  obtain ⟨a, ha⟩ := s.exists_written h depth parent
  obtain ⟨a', ha'⟩ := s.exists_written h' depth parent'
  rw [← List.cons_append, ← List.append_assoc] at ha ha'
  have htrimmed := congrArg String.toList heq
  rw [toList_trimEnd ha (by decide), toList_trimEnd ha' (by decide)] at htrimmed
  have hsame := List.append_cancel_right htrimmed
  exact String.toList_injective (ha.trans ((congrArg (· ++ ['>', '\n']) hsame).trans ha'.symm))

end Dialect.Spelling

end Sitewright.Markup
