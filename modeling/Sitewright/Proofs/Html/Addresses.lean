import Sitewright.Proofs.Html.Texts
import Sitewright.Proofs.Mapping.Resolution
import Sitewright.Proofs.Markup.Attributes

/-!
# Addresses on pages

The prefix of the assets is put before what a page has under `src` and `href`. A link to another
page of the project is written as an `href`, too, so that a route that begins with a slash gets the
prefix of the assets. Nothing else on a page depends on the prefix.
-/

namespace Sitewright

/-- The prefix leaves an address as it is if it consists of slashes only, or if the address does not
begin with a slash. -/
theorem prefixAssetPath_eq_self_iff {assetsPrefix path : String} :
    prefixAssetPath assetsPrefix path = path ↔
      (beginsWith "/" path = true → dropEndSlashes assetsPrefix = "") := by
  rw [prefixAssetPath]
  by_cases hslash : beginsWith "/" path = true
  · by_cases hempty : assetsPrefix = ""
    · rw [hempty]
      simp [dropEndSlashes]
    · simp [hslash, hempty]
  · simp [hslash]

namespace Html

open Outcome

variable {scope : Scope} {owner owner' c : Component} {e : Ui.Element} {key target : String}
  {nodes : List Ui.Node} {options : Options} {compiled : Compiled}

/-- A link to a page of the project, without an address of its own. -/
structure RouteLink (e : Ui.Element) (target : String) : Prop where
  kind : e.kind = "navlink"
  unmapped : e.mappedFrom = none
  target : e.attrs.get? "transitionTo" = some (.literal target)
  attr : e.attrs.get? "href" = none
  event : e.events.get? "href" = none

theorem RouteLink.resolve (h : RouteLink e target) :
    (Mapping.html.resolveElement e).kind = "a" ∧
      (Mapping.html.resolveElement e).attrs.get? "href" = some (.literal target) := by
  have hmapped : Mapping.html.elements.get? e.kind =
      some { kind := "a", attrs := Table.ofList [("href", Mapping.bound "transitionTo")] } := by
    rw [h.kind]
    decide
  have hmark : ¬ e.mappedFrom.isSome := by simp [h.unmapped]
  rw [Mapping.resolveElement, if_neg hmark, hmapped]
  refine ⟨rfl, ?_⟩
  have hhref : "href" ∉ Mapping.consumed
      (Table.ofList [("href", Mapping.bound "transitionTo")]) e.attrs := fun hmem =>
    absurd (List.mem_of_mem_filter hmem) (by decide)
  show (Mapping.resolveAttributes _ e.attrs).get? "href" = _
  rw [Mapping.get?_resolveAttributes, if_neg hhref, h.attr]
  exact h.target

theorem get?_extractElement (used : List String) (e : Ui.Element) (hkey : key ≠ "class") :
    (Style.extractElement used e).1.attrs.get? key = e.attrs.get? key := by
  rw [Style.extractElement]
  split
  · rfl
  · exact (Table.get?_insert _ _ _ _).trans (if_neg hkey)

namespace Scope

/-- An element of the tree as it is when it is expanded. -/
def shownAs (scope : Scope) (used : List String) (e : Ui.Element) : Ui.Element :=
  (Style.extractElement used (scope.mapping.resolveElement e)).1

def withPrefix (scope : Scope) (assetsPrefix : Option String) : Scope :=
  { scope with options := { scope.options with assetsPrefix? := assetsPrefix } }

/-- The elements of nodes in the tree of the component `owner`, parents before children, each with
the component in whose tree it stands. A reference to a shared component has the elements of that
component's own tree, whatever is below the reference. -/
inductive ElementsOf (scope : Scope) :
    Component → List Ui.Node → List (Component × Ui.Element) → Prop
  | nil {owner : Component} : ElementsOf scope owner [] []
  | text {owner : Component} {s : String} {rest : List Ui.Node}
      {later : List (Component × Ui.Element)} (hrest : ElementsOf scope owner rest later) :
      ElementsOf scope owner (.text s :: rest) later
  | dynamic {owner : Component} {r : Ui.Reference} {rest : List Ui.Node}
      {later : List (Component × Ui.Element)} (hrest : ElementsOf scope owner rest later) :
      ElementsOf scope owner (.dynamic r :: rest) later
  | reference {owner c : Component} {e : Ui.Element} {below rest : List Ui.Node}
      {first later : List (Component × Ui.Element)}
      (hc : scope.options.externals.get? (scope.mapping.resolveElement e).kind = some c)
      (htree : ElementsOf scope c [c.node] first) (hrest : ElementsOf scope owner rest later) :
      ElementsOf scope owner (.element e below :: rest) (first ++ later)
  | element {owner : Component} {e : Ui.Element} {below rest : List Ui.Node}
      {first later : List (Component × Ui.Element)}
      (hnone : scope.options.externals.get? (scope.mapping.resolveElement e).kind = none)
      (hbelow : ElementsOf scope owner below first) (hrest : ElementsOf scope owner rest later) :
      ElementsOf scope owner (.element e below :: rest) ((owner, e) :: first ++ later)

variable {elements elements' : List (Component × Ui.Element)}

theorem ElementsOf.append {nodes' : List Ui.Node} (h : scope.ElementsOf owner nodes elements)
    (h' : scope.ElementsOf owner nodes' elements') :
    scope.ElementsOf owner (nodes ++ nodes') (elements ++ elements') := by
  induction h with
  | nil => exact h'
  | text _ ih => exact .text (ih h')
  | dynamic _ ih => exact .dynamic (ih h')
  | reference hc htree _ _ ih =>
    rw [List.append_assoc]
    exact .reference hc htree (ih h')
  | element hnone hbelow _ _ ih =>
    rw [List.append_assoc]
    exact .element hnone hbelow (ih h')

/-- The elements of a tree are determined by it and by its owner. -/
theorem ElementsOf.unique (h : scope.ElementsOf owner nodes elements)
    (h' : scope.ElementsOf owner nodes elements') : elements = elements' := by
  induction h generalizing elements' with
  | nil =>
    cases h'
    rfl
  | text _ ih =>
    cases h' with
    | text hrest => exact ih hrest
  | dynamic _ ih =>
    cases h' with
    | dynamic hrest => exact ih hrest
  | reference hc _ _ ihtree ih =>
    cases h' with
    | reference hc' htree hrest =>
      obtain rfl := Option.some.inj (hc.symm.trans hc')
      rw [ihtree htree, ih hrest]
    | element hnone _ _ => cases hc.symm.trans hnone
  | element hnone _ _ ihbelow ih =>
    cases h' with
    | reference hc _ _ => cases hc.symm.trans hnone
    | element _ hbelow hrest => rw [ihbelow hbelow, ih hrest]

def Tagged (scope : Scope) (s : Component × Ui.Element)
    (tag : String × List (String × Markup.Attr)) : Prop :=
  ∃ used, tag = ((scope.shownAs used s.2).kind, scope.attributes s.1 (scope.shownAs used s.2))

def HasTags (scope : Scope) (owner : Component) (nodes : List Ui.Node)
    (children : List Markup.Child) : Prop :=
  ∃ elements, scope.ElementsOf owner nodes elements ∧
    List.Forall₂ scope.Tagged elements (Markup.tagsOfAll children)

def prepared (scope : Scope) (used : List String) (nodes : List Ui.Node) : List Ui.Node :=
  (Style.extractAll used (nodes.map scope.mapping.resolveTree)).1

theorem prepared_cons (scope : Scope) (used : List String) (node : Ui.Node)
    (rest : List Ui.Node) : ∃ used', scope.prepared used (node :: rest) =
      (Style.extract used (scope.mapping.resolveTree node)).1 :: scope.prepared used' rest :=
  ⟨_, rfl⟩

theorem extract_element (scope : Scope) (used : List String) (e : Ui.Element)
    (below : List Ui.Node) :
    ∃ used', (Style.extract used (scope.mapping.resolveTree (.element e below))).1 =
      .element (scope.shownAs used e) (scope.prepared used' below) := by
  rw [Mapping.resolveTree_element]
  exact ⟨_, rfl⟩

variable {used : List String} {node : Ui.Node} {below : List Ui.Node}

theorem exists_element_of_extract
    (h : (Style.extract used (scope.mapping.resolveTree node)).1 = .element e below) :
    ∃ e' below' used', node = .element e' below' ∧ scope.shownAs used e' = e ∧
      scope.prepared used' below' = below := by
  cases node with
  | text s => cases h
  | dynamic r => cases h
  | element e' below' =>
    obtain ⟨used', heq⟩ := scope.extract_element used e' below'
    obtain ⟨rfl, rfl⟩ := Ui.Node.element.inj (heq.symm.trans h)
    exact ⟨e', below', used', rfl, rfl, rfl⟩

theorem elementsOf_of_extract (used : List String) (owner : Component)
    (h : ∀ e below, (Style.extract used (scope.mapping.resolveTree node)).1 ≠ .element e below) :
    scope.ElementsOf owner [node] [] := by
  cases node with
  | text s => exact .text .nil
  | dynamic r => exact .dynamic .nil
  | element e below =>
    obtain ⟨used', heq⟩ := scope.extract_element used e below
    exact absurd heq (h _ _)

theorem kind_shownAs (scope : Scope) (used : List String) (e : Ui.Element) :
    (scope.shownAs used e).kind = (scope.mapping.resolveElement e).kind :=
  kind_extractElement used _

theorem HasTags.of_not_element (used : List String) {children : List Markup.Child}
    (htags : Markup.tagsOfAll children = [])
    (h : ∀ e below, (Style.extract used (scope.mapping.resolveTree node)).1 ≠ .element e below) :
    scope.HasTags owner [node] children :=
  ⟨[], elementsOf_of_extract used owner h, htags ▸ .nil⟩

theorem HasTags.external {children : List Markup.Child}
    (hc : scope.external? (scope.shownAs used e) = some c)
    (h : scope.HasTags c [c.node] children) : scope.HasTags owner [.element e below] children := by
  obtain ⟨elements, helements, htags⟩ := h
  rw [external?, kind_shownAs] at hc
  -- what stands below a reference is not expanded, and has no elements
  refine ⟨elements, ?_, htags⟩
  rw [← List.append_nil elements]
  exact .reference hc helements .nil

theorem HasTags.element {children : List Markup.Child}
    (hnone : scope.external? (scope.shownAs used e) = none)
    (h : scope.HasTags owner below children) : scope.HasTags owner [.element e below]
      [.element (scope.shownAs used e).kind (scope.attributes owner (scope.shownAs used e))
        children] := by
  obtain ⟨elements, helements, htags⟩ := h
  rw [external?, kind_shownAs] at hnone
  refine ⟨(owner, e) :: elements ++ [], .element hnone helements .nil, ?_⟩
  rw [Markup.tagsOfAll, Markup.Child.tags, Markup.tagsOfAll, List.append_nil, List.append_nil]
  exact .cons ⟨used, rfl⟩ htags

theorem HasTags.append {nodes nodes' : List Ui.Node} {children children' : List Markup.Child}
    (h : scope.HasTags owner nodes children) (h' : scope.HasTags owner nodes' children') :
    scope.HasTags owner (nodes ++ nodes') (children ++ children') := by
  obtain ⟨elements, helements, htags⟩ := h
  obtain ⟨elements', helements', htags'⟩ := h'
  refine ⟨elements ++ elements', helements.append helements', ?_⟩
  rw [Markup.tagsOfAll_append]
  exact List.rel_append htags htags'

theorem hasTags_expand (scope : Scope) :
    (∀ stack owner node r, scope.expand stack owner node = .ok r → ∀ owner' used node',
      owner'.states = owner.states →
        (Style.extract used (scope.mapping.resolveTree node')).1 = node →
          scope.HasTags owner' [node'] r.1) ∧
    (∀ stack owner nodes r, scope.expandAll stack owner nodes = .ok r → ∀ owner' used nodes',
      owner'.states = owner.states → scope.prepared used nodes' = nodes →
        scope.HasTags owner' nodes' r.1) ∧
    ∀ stack c hc r, scope.inline stack c hc = .ok r → scope.HasTags c [c.node] r.1 := by
  refine expand_ok_induction
    (P := fun owner node children _ => ∀ owner' used node', owner'.states = owner.states →
      (Style.extract used (scope.mapping.resolveTree node')).1 = node →
        scope.HasTags owner' [node'] children)
    (Q := fun owner nodes children _ => ∀ owner' used nodes', owner'.states = owner.states →
      scope.prepared used nodes' = nodes → scope.HasTags owner' nodes' children)
    (R := fun c children _ => scope.HasTags c [c.node] children) scope
    ?text ?dynamic ?external ?element ?nil ?cons ?inlined
  case text =>
    intro owner s owner' used node' _ hnode
    refine .of_not_element used rfl fun e below he => ?_
    cases hnode.symm.trans he
  case dynamic =>
    intro owner ref owner' used node' _ hnode
    have htags : Markup.tagsOfAll ((staticValue? owner ref).toList.map .text) = [] := by
      cases staticValue? owner ref <;> rfl
    refine .of_not_element used htags fun e below he => ?_
    cases hnode.symm.trans he
  case external =>
    intro owner e nodes c children sheets hc ih owner' used node' _ hnode
    obtain ⟨e', below', used', rfl, rfl, -⟩ := exists_element_of_extract hnode
    exact .external hc ih
  case element =>
    intro owner e nodes children sheets hnone ih owner' used node' hstates hnode
    obtain ⟨e', below', used', rfl, rfl, hprepared⟩ := exists_element_of_extract hnode
    rw [attributes_congr hstates.symm]
    exact .element hnone (ih owner' used' below' hstates hprepared)
  case nil =>
    intro owner owner' used nodes' _ hnodes
    cases nodes' with
    | nil => exact ⟨[], .nil, .nil⟩
    | cons node rest => cases hnodes
  case cons =>
    intro owner node rest first later sheets sheets' ih ihrest owner' used nodes' hstates hnodes
    cases nodes' with
    | nil => cases hnodes
    | cons node' rest' =>
      obtain ⟨used', hprepared⟩ := scope.prepared_cons used node' rest'
      obtain ⟨hnode, hrest⟩ := List.cons.inj (hprepared.symm.trans hnodes)
      exact (ih owner' used node' hstates hnode).append (ihrest owner' used' rest' hstates hrest)
  case inlined => exact fun c children sheets ih => ih c [] c.node rfl rfl

theorem events_shownAs (scope : Scope) (used : List String) (e : Ui.Element) :
    (scope.shownAs used e).events = e.events := by
  have hextract : (scope.shownAs used e).events = (scope.mapping.resolveElement e).events := by
    rw [shownAs, Style.extractElement]
    split
    · rfl
    · rfl
  rw [hextract, (scope.mapping.resolveElement_keeps e).2.1]

theorem lookup_attributes (hmapping : scope.mapping = .html) :
    (scope.attributes owner e).lookup key =
      ((Mapping.html.handler? e key).or
        ((e.attrs.get? key).bind (scope.attributeValue? owner key))).map .literal := by
  have hnames : ∀ j, scope.mapping.attributeName j = key ↔ j = key ∨ j = key := by
    intro j
    rw [or_self, hmapping]
    rfl
  have hown := e.attrs.lookup_renamed (scope.attributeValue? owner) (String.lt_irrefl key) hnames
  rw [Option.or_self] at hown
  rw [attributes, Markup.lookup_foldl_setAttr, List.reverse_append, List.lookup_append,
    List.lookup_nil, Option.or_none, hmapping]
  rw [hmapping] at hown
  exact congrArg (fun own => ((Mapping.html.handler? e key).or own).map Markup.Attr.literal) hown

/-- What the prefix of the assets does to the tag of an element, which is shown as `shown`. -/
structure Addressed (scope : Scope) (s : Component × Ui.Element)
    (tag : String × List (String × Markup.Attr)) (shown : Ui.Element) : Prop where
  kind : tag.1 = shown.kind
  link : ∀ target, RouteLink s.2 target → tag.1 = "a" ∧
    tag.2.lookup "href" = some (.literal (prefixAssetPath scope.options.assetsPrefix target))
  other : ∀ key ∉ urlAttributes, ∀ assetsPrefix,
    tag.2.lookup key = ((scope.withPrefix assetsPrefix).attributes s.1 shown).lookup key

theorem Tagged.addressed {s : Component × Ui.Element} {tag : String × List (String × Markup.Attr)}
    (hmapping : scope.mapping = .html) (h : scope.Tagged s tag) :
    ∃ used, scope.Addressed s tag (scope.shownAs used s.2) := by
  obtain ⟨used, rfl⟩ := h
  refine ⟨used, rfl, fun target hlink => ?_, fun key hkey assetsPrefix => ?_⟩
  · obtain ⟨hkind, hhref⟩ := hlink.resolve
    have hevent : Mapping.html.handler? (scope.shownAs used s.2) "href" = none := by
      rw [Mapping.handler?_eq (by decide) (by decide), events_shownAs, hlink.event]
    refine ⟨by rw [kind_shownAs, hmapping, hkind], ?_⟩
    rw [lookup_attributes hmapping, hevent, shownAs, get?_extractElement _ _ (by decide), hmapping,
      hhref]
    rfl
  · have hsame : (scope.withPrefix assetsPrefix).mapping = .html := hmapping
    rw [lookup_attributes hmapping, lookup_attributes hsame]
    have hvalue : scope.attributeValue? s.1 key =
        (scope.withPrefix assetsPrefix).attributeValue? s.1 key := by
      funext value
      simp [attributeValue?, hkey]
    rw [hvalue]

end Scope

/-- A link to a page of the project leads to its route with the prefix of the assets before it,
wherever it stands, which is the route itself exactly if the route does not begin with a slash or
the prefix is empty. Attributes other than `src` and `href` do not depend on the prefix. -/
theorem addresses_prefixed (hmapping : (scopeFor options).mapping = .html)
    (h : Generator.htmlComponent.generate c options = .ok compiled) :
    ∃ head children elements,
      File.ofParts c.fileName "html"
        (normalizeText ("<!DOCTYPE html>\n" ++ (document head children).toHtml)) ∈ compiled.files ∧
      (∀ elements', (scopeFor options).ElementsOf c [c.node] elements' ↔ elements' = elements) ∧
      List.Forall₂ (fun s tag => ∃ used,
          (scopeFor options).Addressed s tag ((scopeFor options).shownAs used s.2))
        elements (Markup.tagsOfAll children) ∧
      ∀ target, prefixAssetPath options.assetsPrefix target = target ↔
        (beginsWith "/" target = true → dropEndSlashes options.assetsPrefix = "") := by
  obtain ⟨children, sheets, draft, tags, hexpand, -, -, -, hfiles⟩ := exists_page h
  obtain ⟨elements, helements, htags⟩ := (scopeFor options).hasTags_expand.1 _ _ _ _ hexpand c []
    c.node rfl rfl
  refine ⟨headOf tags, children, elements, (hfiles _).2 (.inl rfl), fun elements' =>
    ⟨fun h' => h'.unique helements, ?_⟩, htags.imp fun _ _ hs => hs.addressed hmapping,
    fun _ => prefixAssetPath_eq_self_iff⟩
  rintro rfl
  exact helements

def aboutLink : Ui.Element where
  kind := "navlink"
  attrs := Table.ofList [("transitionTo", .literal "/about")]

theorem routeLink_aboutLink : RouteLink aboutLink "/about" := ⟨rfl, rfl, rfl, rfl, rfl⟩

def footer : Component where
  name := "Footer"
  node := .element { kind := "container" } [.element aboutLink [.text "About"]]

def footerPage : Component where
  name := "Home"
  node := .element { kind := "main" } [.element { kind := "Footer" } []]

def staticOptions : Options where
  assetsPrefix? := some "/static"
  externals := Table.empty.insert "Footer" footer

def aboutAnchor : Markup.Child :=
  .element "a" [("href", .literal "/static/about")] [.text "About"]

theorem expandPage_footerPage : (scopeFor staticOptions).expandPage footerPage =
    .ok ([.element "main" [] [.element "div" [] [aboutAnchor]]], []) := by
  let scope := scopeFor staticOptions
  let block : Ui.Element := { kind := "div", mappedFrom := some "container" }
  let anchor : Ui.Element := scope.mapping.resolveElement aboutLink
  have hfooter : scope.external? { kind := "Footer" } = some footer := rfl
  have hmain : scope.external? { kind := "main" } = none := rfl
  have hblock : scope.external? block = none := rfl
  have hanchor : scope.external? anchor = none := rfl
  have htree : scope.tree footer = .element block [.element anchor [.text "About"]] := rfl
  have hpage : scope.tree footerPage =
    .element { kind := "main" } [.element { kind := "Footer" } []] := rfl
  have hattrs : scope.attributes footer anchor = [("href", .literal "/static/about")] := by
    decide +kernel
  have hinline : scope.inline ["Home"] footer (Scope.mem_values_of_external? hfooter) =
      .ok ([.element "div" [] [aboutAnchor]], []) := by
    rw [Scope.inline_of_notMem _ (by decide), htree, Scope.expand_element hblock]
    simp only [Scope.expandAll, Scope.expand_element hanchor, Scope.expand, hattrs]
    rfl
  show scope.expand ["Home"] (scope.styled footerPage) (scope.tree footerPage) = _
  rw [hpage, Scope.expand_element hmain]
  simp only [Scope.expandAll, Scope.expand_external hfooter]
  rw [hinline]
  rfl

theorem elementsOf_footerPage : (scopeFor staticOptions).ElementsOf footerPage [footerPage.node]
    [(footerPage, { kind := "main" }), (footer, { kind := "container" }), (footer, aboutLink)] := by
  have htree : (scopeFor staticOptions).ElementsOf footer [footer.node]
      [(footer, { kind := "container" }), (footer, aboutLink)] :=
    .element rfl (.element rfl (.text .nil) .nil) .nil
  exact .element rfl (.reference rfl htree .nil) .nil

theorem addresses_prefixed_footerPage : ∃ compiled head children attrs,
    (scopeFor staticOptions).mapping = .html ∧
    Generator.htmlComponent.generate footerPage staticOptions = .ok compiled ∧
    File.ofParts "home" "html"
      (normalizeText ("<!DOCTYPE html>\n" ++ (document head children).toHtml)) ∈ compiled.files ∧
    ("a", attrs) ∈ Markup.tagsOfAll children ∧
    attrs.lookup "href" = some (.literal "/static/about") := by
  have hvalid : staticOptions.validate = .ok () := rfl
  obtain ⟨compiled, hcompiled⟩ := generate_of_expandPage hvalid expandPage_footerPage
  obtain ⟨head, children, elements, hfile, helements, htags, -⟩ := addresses_prefixed rfl hcompiled
  obtain rfl := (helements _).1 elementsOf_footerPage
  obtain ⟨main, _, -, hbelow, hmain⟩ := List.forall₂_cons_left_iff.1 htags
  obtain ⟨block, _, -, hlast, rfl⟩ := List.forall₂_cons_left_iff.1 hbelow
  obtain ⟨anchor, _, ⟨used, hanchor⟩, -, rfl⟩ := List.forall₂_cons_left_iff.1 hlast
  obtain ⟨hkind, hhref⟩ := hanchor.link "/about" routeLink_aboutLink
  have hprefix : prefixAssetPath "/static" "/about" = "/static/about" := by decide
  refine ⟨compiled, head, children, anchor.2, rfl, hcompiled, hfile, ?_, ?_⟩
  · rw [hmain, ← hkind]
    simp
  · rw [hhref, ← hprefix]
    rfl

/-- A route that begins with a slash is sent to the folder of the assets. -/
theorem route_sent_to_assets : ∃ compiled head,
    (scopeFor staticOptions).mapping = .html ∧ RouteLink aboutLink "/about" ∧
    Generator.htmlComponent.generate footerPage staticOptions = .ok compiled ∧
    (∀ file, file ∈ compiled.files ↔ file = File.ofParts "home" "html"
      (normalizeText ("<!DOCTYPE html>\n" ++ (document head
        [.element "main" [] [.element "div" [] [aboutAnchor]]]).toHtml))) ∧
    (Markup.Child.tags aboutAnchor).map (fun tag => tag.2.lookup "href") ≠
      [some (.literal "/about")] := by
  have hvalid : staticOptions.validate = .ok () := rfl
  obtain ⟨compiled, hcompiled⟩ := generate_of_expandPage hvalid expandPage_footerPage
  obtain ⟨children, sheets, draft, tags, hexpand, -, -, -, hfiles⟩ := exists_page hcompiled
  obtain ⟨rfl, rfl⟩ := Prod.mk.inj (Except.ok.inj (expandPage_footerPage.symm.trans hexpand))
  have hstyles : (scopeFor staticOptions).styles footerPage = [] := rfl
  refine ⟨compiled, headOf tags, rfl, routeLink_aboutLink, hcompiled, fun file => ?_, by decide⟩
  rw [hfiles, hstyles]
  exact or_iff_left fun h => h.1 rfl

end Html

end Sitewright
