import Sitewright.Proofs.Html.InlinedSheets
import Sitewright.Proofs.Markup.Attributes
import Sitewright.Proofs.Path.Joining
import Sitewright.Proofs.Text.ByteOrder

/-!
# Heads of pages

The imports of a page are style sheets, each recorded under its own path: the sheet of the project,
the sheets of the components that are inlined and the page's own. Records of one path are the same
record, so that merging them from three plugins loses none and keeps none twice. The head has one
link for each path, in the order in which the imports are kept, and after the links what the
component says for search engines.
-/

namespace Sitewright

open Outcome

/-- Merging the records of style sheets keeps one for each path. -/
theorem Imports.get?_sheets {imports : Imports} {paths : List String} {x : String} {d : Dependency}
    (h : empty.mergeAll (paths.map sheetRecord) = .ok imports) :
    imports.get? x = some d ↔ x ∈ paths ∧ d = (Dependency.localPath x).sideEffect := by
  have hrecord {d : Dependency} : (x, d) ∈ paths.map sheetRecord ↔
      x ∈ paths ∧ d = (Dependency.localPath x).sideEffect := by
    simp only [List.mem_map, sheetRecord, Prod.mk.injEq]
    constructor
    · rintro ⟨path, hpath, rfl, rfl⟩
      exact ⟨hpath, rfl⟩
    · rintro ⟨hx, rfl⟩
      exact ⟨x, hx, rfl, rfl⟩
  rw [get?_of_mergeAll_empty h]
  constructor
  · intro hlast
    exact hrecord.1 (mem_of_lastUnder hlast)
  · intro hx
    obtain ⟨e, he⟩ := exists_lastUnder (hrecord.2 hx)
    obtain ⟨-, rfl⟩ := hrecord.1 (mem_of_lastUnder he)
    rw [he, hx.2]

namespace Html

open Style

variable {c : Component} {options : Options} {compiled : Compiled} {imports : Imports}
  {children : List Markup.Child} {sheets : List String} {path : String}

/-! ## Paths -/

/-- The page of a component imports the style sheet at a path. -/
inductive NeedsSheet (c : Component) (options : Options) : String → Prop
  | own (hstyled : (scopeFor options).Styled c) :
      NeedsSheet c options ("./" ++ c.fileName ++ ".css")
  | project {sheet : ProjectStyleSheet} (hsheet : options.styleSheet = some sheet)
      (himport : sheet.importFile = true ∨ options.isRoot = true) :
      NeedsSheet c options (joinModulePath sheet.path (sheet.fileName ++ ".css"))
  | inlined {d : Component} (hinlined : (scopeFor options).Inlined c d)
      (hstyled : (scopeFor options).Styled d) :
      NeedsSheet c options (joinModulePath options.localPrefix d.modulePath ++ ".css")

theorem needsSheet_iff : NeedsSheet c options path ↔
    (∃ sheet, options.styleSheet = some sheet ∧ (sheet.importFile = true ∨ options.isRoot = true) ∧
      path = joinModulePath sheet.path (sheet.fileName ++ ".css")) ∨
    (∃ d, (scopeFor options).Inlined c d ∧ (scopeFor options).Styled d ∧
      path = (scopeFor options).styleSheetPath d) ∨
    (scopeFor options).Styled c ∧ path = "./" ++ c.fileName ++ ".css" := by
  constructor
  · rintro (hstyled | ⟨hsheet, himport⟩ | ⟨hinlined, hstyled⟩)
    · exact .inr (.inr ⟨hstyled, rfl⟩)
    · exact .inl ⟨_, hsheet, himport, rfl⟩
    · exact .inr (.inl ⟨_, hinlined, hstyled, rfl⟩)
  · rintro (⟨sheet, hsheet, himport, rfl⟩ | ⟨d, hinlined, hstyled, rfl⟩ | ⟨hstyled, rfl⟩)
    · exact .project hsheet himport
    · exact .inlined hinlined hstyled
    · exact .own hstyled

theorem NeedsSheet.endsWith_css (h : NeedsSheet c options path) :
    endsWithText ".css" path = true := by
  have happend (front : String) : endsWithText ".css" (front ++ ".css") = true := by
    rw [endsWithText_iff, String.toList_append]
    exact List.suffix_append _ _
  cases h with
  | own => exact happend _
  | project => exact endsWithText_joinModulePath _ (by decide) (by decide) (happend _)
  | inlined => exact happend _

theorem exists_pageSheets (h : (scopeFor options).expandPage c = .ok (children, sheets)) :
    ∃ paths : List String,
      pageRecords (Generator.htmlComponent.start c options) sheets = paths.map sheetRecord ∧
      ∀ path, path ∈ paths ↔ NeedsSheet c options path := by
  obtain ⟨global, hglobal, hmemGlobal⟩ := options.exists_globalSheets
  obtain ⟨own, hown, hmemOwn⟩ := exists_ownSheets c.fileName ((scopeFor options).styles c)
  refine ⟨global ++ (sheets ++ own), ?_, fun path => ?_⟩
  · rw [List.map_append, List.map_append, ← hglobal, ← hown]
    rfl
  · rw [List.mem_append, List.mem_append, hmemGlobal, hmemOwn, Scope.mem_sheets_page_iff h,
      Scope.styles_ne_nil_iff, needsSheet_iff]

/-! ## Tags -/

def sheetLink (path : String) : Markup.Element where
  tag := "link"
  attrs := [("href", .literal path), ("rel", .literal "stylesheet")]

def LinksSheet (tag : String × List (String × Markup.Attr)) : Prop :=
  tag.1 = "link" ∧ tag.2.lookup "rel" = some (.literal "stylesheet")

/-- The tags for the imports of a page are links to its style sheets. -/
theorem importTags_sheets
    (himports : ∀ x d, imports.get? x = some d ↔
      NeedsSheet c options x ∧ d = (Dependency.localPath x).sideEffect) :
    importTags imports = imports.records.keys.map sheetLink := by
  have hentry : ∀ e ∈ imports.records.entries, NeedsSheet c options e.1 ∧
      e.2 = (Dependency.localPath e.1).sideEffect := by
    rintro ⟨x, d⟩ he
    exact (himports x d).1 (Table.mem_entries_iff.1 he)
  have hall : imports.records.values.filter (·.importKind = .sideEffect) =
      imports.records.values := by
    refine List.filter_eq_self.2 fun d hd => ?_
    obtain ⟨e, he, rfl⟩ := List.mem_map.1 hd
    rw [(hentry e he).2]
    rfl
  rw [importTags, hall, Table.values, Table.keys, List.map_map, List.map_map]
  refine List.map_congr_left fun e he => ?_
  obtain ⟨hneeds, hrecord⟩ := hentry e he
  have hsource : e.2.source = e.1 := congrArg Dependency.source hrecord
  show importTag e.2.source = sheetLink e.1
  rw [hsource, importTag, if_pos hneeds.endsWith_css]
  rfl

theorem tags_metaTag (assetsPrefix : String) (values : Table String) :
    ∃ attrs, (metaTag assetsPrefix values).toChild.tags = [("meta", attrs)] :=
  ⟨_, congrArg (fun e => e.toChild.tags) (Markup.foldl_set Prod.fst
    (fun e => .literal (prefixAssetPath assetsPrefix e.2)) values.entries { tag := "meta" })⟩

/-- A tag and the tags below it are no links to style sheets and no scripts. -/
def LoadsNothing (e : Markup.Element) : Prop :=
  ∀ tag ∈ e.toChild.tags, tag.1 ≠ "script" ∧ ¬ LinksSheet tag

theorem loadsNothing_of_tags {e : Markup.Element} {name : String}
    {attrs : List (String × Markup.Attr)} (htags : e.toChild.tags = [(name, attrs)])
    (hscript : name ≠ "script") (hlink : ¬ LinksSheet (name, attrs)) : LoadsNothing e := by
  intro tag htag
  rw [htags] at htag
  obtain rfl := List.mem_singleton.1 htag
  exact ⟨hscript, hlink⟩

theorem loadsNothing_of_mem_seoTags {assetsPrefix : String} {seo : Seo} {e : Markup.Element}
    (he : e ∈ seoTags assetsPrefix seo) : LoadsNothing e := by
  rw [seoTags, List.mem_append, List.mem_append] at he
  rcases he with (he | he) | he
  · obtain ⟨title, -, rfl⟩ := Option.map_eq_some_iff.1 (Option.mem_toList.1 he)
    have htags : (titleTag title).toChild.tags = [("title", [])] := rfl
    exact loadsNothing_of_tags htags (by decide) fun hlinks => absurd hlinks.1 (by decide)
  · obtain ⟨values, -, rfl⟩ := List.mem_map.1 he
    obtain ⟨attrs, htags⟩ := tags_metaTag assetsPrefix values
    have hname : "meta" ≠ "link" := by decide
    exact loadsNothing_of_tags htags (by decide) fun hlinks => hname hlinks.1
  · obtain ⟨address, -, rfl⟩ := List.mem_map.1 he
    have htags : (canonicalTag (prefixAssetPath assetsPrefix address)).toChild.tags =
        [("link", [("rel", .literal "canonical"),
          ("href", .literal (prefixAssetPath assetsPrefix address))])] := rfl
    refine loadsNothing_of_tags htags (by decide) fun hlinks => ?_
    have hrel : "canonical" = "stylesheet" := Markup.Attr.literal.inj (Option.some.inj hlinks.2)
    exact absurd hrel (by decide)

/-! ## The head -/

def pageSeoTags (c : Component) (options : Options) : List Markup.Element :=
  (c.seo.map (seoTags options.assetsPrefix)).getD []

theorem loadsNothing_of_mem_pageSeoTags {e : Markup.Element} (he : e ∈ pageSeoTags c options) :
    LoadsNothing e := by
  rw [pageSeoTags] at he
  cases hseo : c.seo with
  | none =>
    rw [hseo] at he
    cases he
  | some seo =>
    rw [hseo] at he
    exact loadsNothing_of_mem_seoTags he

theorem headTags_start (hsheets : ∀ x d, imports.get? x = some d ↔
      NeedsSheet c options x ∧ d = (Dependency.localPath x).sideEffect) :
    headTags (Generator.htmlComponent.start c options) imports =
      imports.records.keys.map sheetLink ++ pageSeoTags c options := by
  rw [headTags, importTags_sheets hsheets]
  rfl

theorem pairwise_keys_utf8Bytes {α : Type} (t : Table α) :
    t.keys.Pairwise fun x y => utf8Bytes x < utf8Bytes y :=
  List.pairwise_map.2 (t.sorted.imp utf8Bytes_lt_iff.2)

/-- The head of a page has one link for each style sheet that the page needs, in the order of the
bytes of their paths, and after them the title, the meta tags and the canonical addresses, among
which there are no more such links and no scripts. It is the first child of the document, and it is
left out if there are no tags for it. -/
theorem head_links_sheets (h : Generator.htmlComponent.generate c options = .ok compiled) :
    ∃ draft html children, ∃ paths : List String,
      runPlugins Generator.htmlComponent.plugins (Generator.htmlComponent.start c options) =
        .ok draft ∧
      draft.chunks.get? .html "html-template" = some (documentChunk "html-template" html) ∧
      File.ofParts c.fileName "html" (normalizeText ("<!DOCTYPE html>\n" ++ html.toHtml)) ∈
        compiled.files ∧
      html = document (headOf (paths.map sheetLink ++ pageSeoTags c options)) children ∧
      (∀ path, path ∈ paths ↔ NeedsSheet c options path) ∧
      paths.Pairwise (fun x y => utf8Bytes x < utf8Bytes y) ∧
      ∀ e ∈ pageSeoTags c options, LoadsNothing e := by
  obtain ⟨children, sheets, draft, tags, hexpand, hdraft, hchunks, -, hfiles⟩ := exists_page h
  obtain ⟨draft', imports, hdraft', hchunks', -, himports⟩ :=
    runPlugins_page (d := Generator.htmlComponent.start c options) rfl Imports.selfNamed_empty
      hexpand
  obtain rfl := Except.ok.inj (hdraft.symm.trans hdraft')
  obtain ⟨records, hrecords, hneeds⟩ := exists_pageSheets hexpand
  have hsheets : ∀ x d, imports.get? x = some d ↔
      NeedsSheet c options x ∧ d = (Dependency.localPath x).sideEffect := by
    intro x d
    rw [← hneeds]
    exact Imports.get?_sheets (hrecords ▸ himports)
  have hpaths : ∀ path, path ∈ imports.records.keys ↔ NeedsSheet c options path := by
    intro path
    rw [Table.mem_keys_iff]
    constructor
    · rintro ⟨d, hd⟩
      exact ((hsheets path d).1 hd).1
    · intro hpath
      exact ⟨_, (hsheets path _).2 ⟨hpath, rfl⟩⟩
  have hsame : document (headOf tags) children =
      document (headOf (headTags (Generator.htmlComponent.start c options) imports)) children :=
    pageStore_inj (hchunks.symm.trans hchunks')
  rw [headTags_start hsheets] at hsame
  have hdocument : draft.chunks.get? .html "html-template" =
      some (documentChunk "html-template" (document (headOf tags) children)) := by
    rw [hchunks, get?_document]
  refine ⟨draft, _, children, imports.records.keys, hdraft, hdocument, (hfiles _).2 (.inl rfl),
    hsame, hpaths, pairwise_keys_utf8Bytes _, fun _ => loadsNothing_of_mem_pageSeoTags⟩

def priceTag : Component where
  name := "Price Tag"
  node := .element { kind := "span", style := Table.empty.insert "fontWeight" "bold" }
    [.text "9.99"]
  output := { folderPath := ["shop"] }

def offer : Component where
  name := "Offer"
  node := .element { kind := "Price Tag" } []

def shopPage : Component where
  name := "Home"
  node := .element { kind := "main", style := Table.empty.insert "margin" "0" }
    [.element { kind := "Price Tag" } [], .element { kind := "Offer" } []]
  seo := some { title := some "Shop" }

def theme : ProjectStyleSheet where
  fileName := "theme"
  path := ".."
  importFile := true

def shopOptions : Options where
  localPrefix? := some "../components"
  styleSheet := some theme
  externals := (Table.empty.insert "Price Tag" priceTag).insert "Offer" offer

theorem external?_priceTag :
    (scopeFor shopOptions).external? { kind := "Price Tag" } = some priceTag := rfl

theorem external?_offer : (scopeFor shopOptions).external? { kind := "Offer" } = some offer := rfl

theorem exists_inline_priceTag {stack : List String} (h : "Price Tag" ∉ stack) : ∃ r,
    (scopeFor shopOptions).inline stack priceTag
      (Scope.mem_values_of_external? external?_priceTag) = .ok r := by
  obtain ⟨e, htree, hnone⟩ : ∃ e : Ui.Element,
      (scopeFor shopOptions).tree priceTag = .element e [.text "9.99"] ∧
      (scopeFor shopOptions).external? e = none := ⟨_, rfl, rfl⟩
  rw [Scope.inline_of_notMem _ h, htree, Scope.expand_element hnone]
  simp only [Scope.expandAll, Scope.expand]
  exact ⟨_, rfl⟩

theorem exists_expandPage_shopPage : ∃ r, (scopeFor shopOptions).expandPage shopPage = .ok r := by
  obtain ⟨e, htree, hnone⟩ : ∃ e : Ui.Element, (scopeFor shopOptions).tree shopPage =
      .element e [.element { kind := "Price Tag" } [], .element { kind := "Offer" } []] ∧
      (scopeFor shopOptions).external? e = none := ⟨_, rfl, rfl⟩
  have hoffer : (scopeFor shopOptions).tree offer = .element { kind := "Price Tag" } [] := rfl
  have hpage : "Price Tag" ∉ ["Home"] := by decide
  have hbelow : "Price Tag" ∉ ["Home"] ++ ["Offer"] := by decide
  obtain ⟨first, hfirst⟩ := exists_inline_priceTag hpage
  obtain ⟨later, hlater⟩ := exists_inline_priceTag hbelow
  have hinline : (scopeFor shopOptions).inline ["Home"] offer
      (Scope.mem_values_of_external? external?_offer) =
        .ok (later.1, (scopeFor shopOptions).ownSheets offer ++ later.2) := by
    rw [Scope.inline_of_notMem _ (by decide), hoffer, Scope.expand_external external?_priceTag]
    show ((scopeFor shopOptions).inline (["Home"] ++ ["Offer"]) priceTag _).map _ = _
    rw [hlater]
    rfl
  show ∃ r, (scopeFor shopOptions).expand ["Home"] ((scopeFor shopOptions).styled shopPage)
    ((scopeFor shopOptions).tree shopPage) = .ok r
  rw [htree, Scope.expand_element hnone]
  simp only [Scope.expandAll, Scope.expand_external external?_priceTag,
    Scope.expand_external external?_offer]
  rw [hfirst, hinline]
  exact ⟨_, rfl⟩

theorem styled_priceTag : (scopeFor shopOptions).Styled priceTag := by
  have hnode : (scopeFor shopOptions).mapping.resolveTree priceTag.node = priceTag.node := rfl
  rw [Scope.Styled, hnode]
  exact ⟨_, List.mem_cons_self, rfl⟩

theorem styled_shopPage : (scopeFor shopOptions).Styled shopPage := by
  have hnode : (scopeFor shopOptions).mapping.resolveTree shopPage.node = shopPage.node := rfl
  rw [Scope.Styled, hnode]
  exact ⟨_, List.mem_cons_self, rfl⟩

theorem refers_offer : (scopeFor shopOptions).Refers shopPage offer := by
  have hrefs : (scopeFor shopOptions).references
      ((scopeFor shopOptions).mapping.resolveTree shopPage.node) =
        [("Price Tag", priceTag), ("Offer", offer)] := rfl
  refine ⟨"Offer", ?_⟩
  rw [hrefs]
  exact List.mem_cons_of_mem _ List.mem_cons_self

theorem refers_priceTag : (scopeFor shopOptions).Refers offer priceTag := by
  have hrefs : (scopeFor shopOptions).references
      ((scopeFor shopOptions).mapping.resolveTree offer.node) = [("Price Tag", priceTag)] := rfl
  refine ⟨"Price Tag", ?_⟩
  rw [hrefs]
  exact List.mem_cons_self

theorem head_links_sheets_shopPage : ∃ (compiled : Compiled) (draft : Draft)
    (html : Markup.Element) (children : List Markup.Child) (paths : List String),
    Generator.htmlComponent.generate shopPage shopOptions = .ok compiled ∧
    draft.chunks.get? .html "html-template" = some (documentChunk "html-template" html) ∧
    html = document (headOf (paths.map sheetLink ++ [titleTag "Shop"])) children ∧
    paths.Pairwise (fun x y => utf8Bytes x < utf8Bytes y) ∧
    "../components/shop/price-tag.css" ∈ paths ∧ "../theme.css" ∈ paths ∧ "./home.css" ∈ paths := by
  obtain ⟨⟨children, sheets⟩, hexpand⟩ := exists_expandPage_shopPage
  have hsheet : shopOptions.styleSheet = some theme := rfl
  have hvalid : shopOptions.validate = .ok () := rfl
  obtain ⟨compiled, hcompiled⟩ := generate_of_expandPage hvalid hexpand
  obtain ⟨draft, html, children, paths, -, hdocument, -, hhtml, hpaths, hsorted, -⟩ :=
    head_links_sheets hcompiled
  have hseo : pageSeoTags shopPage shopOptions = [titleTag "Shop"] := rfl
  rw [hseo] at hhtml
  have hlabelPath : joinModulePath shopOptions.localPrefix priceTag.modulePath ++ ".css" =
    "../components/shop/price-tag.css" := by decide +kernel
  have hthemePath : joinModulePath theme.path (theme.fileName ++ ".css") = "../theme.css" := by
    decide +kernel
  have hownPath : "./" ++ shopPage.fileName ++ ".css" = "./home.css" := by decide +kernel
  have hlabel := NeedsSheet.inlined (.tail (.single refers_offer) refers_priceTag) styled_priceTag
  have htheme : NeedsSheet shopPage shopOptions _ := .project hsheet (.inl rfl)
  have hown := NeedsSheet.own styled_shopPage
  rw [hlabelPath] at hlabel
  rw [hthemePath] at htheme
  rw [hownPath] at hown
  exact ⟨compiled, draft, html, children, paths, hcompiled, hdocument, hhtml, hsorted,
    (hpaths _).2 hlabel, (hpaths _).2 htheme, (hpaths _).2 hown⟩

end Html

end Sitewright
