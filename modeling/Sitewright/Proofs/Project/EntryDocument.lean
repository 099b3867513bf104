import Sitewright.Configuration.Plan
import Sitewright.Proofs.Chunk.Leading
import Sitewright.Proofs.Project.EntryElements

/-!
# The entry document with extra chunks

The document type and the document stay the first two chunks of the entry file, whatever chunks a
configuration adds and whatever these follow. Each asset that is a script gives one script element,
in the body if it is targeted at it and in the head otherwise.
-/

namespace Sitewright

open Markup (Element Child)
open ChunkStore LinkOrder Outcome

/-! ## Chunks that a configuration adds -/

variable {c : ExtraChunk} {chunk result : Chunk} {flags done : List String} {extra : List Chunk}
  {asked : List ExtraChunk} {s : EntrySettings} {preset entry : EntrySection} {p : Project}
  {options : EntryOptions}

/-- A chunk as it is asked for, which is written unless it has a flag. -/
structure ExtraChunk.Makes (c : ExtraChunk) (chunk : Chunk) : Prop where
  name : chunk.name = c.name
  fileType : chunk.fileType = .html
  content : chunk.content = .text c.content
  linkAfter : chunk.linkAfter = c.linkAfter
  emits : chunk.emits = c.flags.isEmpty

theorem ExtraChunk.Makes.withFlag {flag : String} (hc : { c with flags := done }.Makes chunk)
    (h : chunk.withFlagNamed flag = .ok result) :
    { c with flags := done ++ [flag] }.Makes result := by
  obtain ⟨f, -, rfl⟩ := map_ok_iff.1 h
  have hemits : (chunk.withFlag f).emits = false := by
    cases f with
    | importOnly => rfl
    | hidden => exact Bool.and_false _
  have hflags : (done ++ [flag]).isEmpty = false := by simp
  cases f with
  | importOnly => exact ⟨hc.name, hc.fileType, hc.content, hc.linkAfter, hemits.trans hflags.symm⟩
  | hidden => exact ⟨hc.name, hc.fileType, hc.content, hc.linkAfter, hemits.trans hflags.symm⟩

theorem ExtraChunk.Makes.withFlags (hc : { c with flags := done }.Makes chunk)
    (h : flags.foldlM Chunk.withFlagNamed chunk = .ok result) :
    { c with flags := done ++ flags }.Makes result := by
  induction flags generalizing chunk done with
  | nil =>
    obtain rfl := Except.ok.inj h
    rwa [List.append_nil]
  | cons flag flags ih =>
    rw [List.foldlM_cons, bind_ok_iff] at h
    obtain ⟨next, hnext, hrest⟩ := h
    rw [List.append_cons]
    exact ih (hc.withFlag hnext) hrest

theorem ExtraChunk.makes_toChunk (h : c.toChunk = .ok chunk) : c.Makes chunk := by
  have hbare : { c with flags := [] }.Makes
      ((Chunk.ofText c.name .html c.content).after c.linkAfter) := ⟨rfl, rfl, rfl, rfl, rfl⟩
  exact hbare.withFlags h

/-- The entry file has the chunks of the preset and those that are asked for. -/
theorem exists_extra (h : s.entry preset = .ok entry) : ∃ extra,
    List.Forall₂ ExtraChunk.Makes s.chunks extra ∧
      ∀ p options, entry.chunks p options = (preset.chunks p options).addAll extra := by
  obtain ⟨extra, hextra, hentry⟩ := bind_ok_iff.1 h
  obtain rfl := Except.ok.inj hentry
  exact ⟨extra, (mapM_ok_iff.1 hextra).imp fun _ _ => ExtraChunk.makes_toChunk, fun _ _ => rfl⟩

theorem links_eq_of_makes (h : List.Forall₂ ExtraChunk.Makes asked extra) :
    links extra = asked.map fun c => (c.name, c.linkAfter) := by
  induction h with
  | nil => rfl
  | cons hc _ ih =>
    rw [links, List.map_cons, ← links, ih, hc.name, hc.linkAfter]
    rfl

theorem names_eq_of_makes (h : List.Forall₂ ExtraChunk.Makes asked extra) :
    extra.map (·.name) = asked.map (·.name) := by
  induction h with
  | nil => rfl
  | cons hc _ ih => rw [List.map_cons, List.map_cons, ih, hc.name]

theorem texts_eq_of_makes (h : List.Forall₂ ExtraChunk.Makes asked extra) :
    (extra.filter (·.emits)).map (·.content.render) =
      (asked.filter (·.flags = [])).map (·.content) := by
  induction h with
  | nil => rfl
  | @cons c chunk asked extra hc _ ih =>
    have hrender : chunk.content.render = c.content := by
      rw [hc.content]
      rfl
    rw [List.filter_cons, List.filter_cons, hc.emits]
    by_cases hflags : c.flags = []
    · simp [hflags, hrender, ih]
    · simp [hflags, ih]

theorem exists_makes (h : List.Forall₂ ExtraChunk.Makes asked extra) :
    ∀ chunk ∈ extra, ∃ c : ExtraChunk, c.Makes chunk := by
  induction h with
  | nil => simp
  | cons hc _ ih => exact List.forall_mem_cons.2 ⟨⟨_, hc⟩, ih⟩

/-! ## The store of the entry file -/

namespace Entry

def ownChunks (p : Project) (options : EntryOptions) : List Chunk :=
  [Html.doctype, Html.documentChunk "html-node" (document p options)]

def ownLinks : List (String × List String) := [("doctype", []), ("html-node", ["doctype"])]

theorem leading_ownLinks : Leading ownLinks := by
  unfold Leading
  decide

theorem links_ownChunks (p : Project) (options : EntryOptions) :
    links (ownChunks p options) = ownLinks := rfl

theorem names_ownChunks (p : Project) (options : EntryOptions) :
    (ownChunks p options).map (·.name) = ["doctype", "html-node"] := rfl

theorem fileType_of_mem_ownChunks (h : chunk ∈ ownChunks p options) : chunk.fileType = .html := by
  rcases List.mem_pair.1 h with rfl | rfl
  · rfl
  · rfl

theorem accepts_of_mem_ownChunks (h : chunk ∈ ownChunks p options) :
    FileType.html.accepts chunk.content.representation = true := by
  rcases List.mem_pair.1 h with rfl | rfl
  · rfl
  · rfl

theorem names_append (h : List.Forall₂ ExtraChunk.Makes asked extra) :
    (ownChunks p options ++ extra).map (·.name) =
      "doctype" :: "html-node" :: asked.map (·.name) := by
  rw [List.map_append, names_ownChunks, names_eq_of_makes h]
  rfl

theorem fileType_of_mem (h : List.Forall₂ ExtraChunk.Makes asked extra) :
    ∀ chunk ∈ ownChunks p options ++ extra, chunk.fileType = .html := by
  refine List.forall_mem_append.2 ⟨fun _ => fileType_of_mem_ownChunks, fun chunk hchunk => ?_⟩
  obtain ⟨c, hc⟩ := exists_makes h chunk hchunk
  exact hc.fileType

theorem accepts_of_mem (h : List.Forall₂ ExtraChunk.Makes asked extra) :
    ∀ chunk ∈ ownChunks p options ++ extra,
      FileType.html.accepts chunk.content.representation = true := by
  refine List.forall_mem_append.2 ⟨fun _ => accepts_of_mem_ownChunks, fun chunk hchunk => ?_⟩
  obtain ⟨c, hc⟩ := exists_makes h chunk hchunk
  rw [hc.content]
  rfl

theorem ofType_addAll (h : List.Forall₂ ExtraChunk.Makes asked extra)
    (hnames : ("doctype" :: "html-node" :: asked.map (·.name)).Nodup) :
    ((chunks p options).addAll extra).ofType .html = ownChunks p options ++ extra := by
  have hkey : (ownChunks p options ++ extra).map key =
      ((ownChunks p options ++ extra).map (·.name)).map (Prod.mk FileType.html) := by
    rw [List.map_map]
    apply List.map_congr_left
    intro chunk hchunk
    rw [key, fileType_of_mem h chunk hchunk]
    rfl
  have hkeys : ((ownChunks p options ++ extra).map key).Nodup := by
    rw [hkey, names_append h]
    exact hnames.map (Prod.mk_right_injective FileType.html)
  have hstore : (chunks p options).addAll extra = ⟨ownChunks p options ++ extra⟩ :=
    addAll_of_nodup hkeys
  rw [hstore, ofType]
  exact List.filter_eq_self.2 fun chunk hchunk => decide_eq_true (fileType_of_mem h chunk hchunk)

end Entry

open Entry

/-- An entry file with extra chunks links exactly when their links lead to chunks of the file and
run in no circle. Its text begins with the document type and the document, and the extra chunks come
after them; and each script asset gives the document one script, where its target says. -/
theorem entry_document_leads (hpreset : preset.chunks = Entry.chunks)
    (hentry : s.entry preset = .ok entry)
    (hnames : ("doctype" :: "html-node" :: s.chunks.map (·.name)).Nodup) (p : Project)
    (options : EntryOptions) :
    ((∃ text, (entry.chunks p options).link .html = .ok text) ↔
      (∀ c ∈ s.chunks, ∀ link ∈ c.linkAfter,
        link ∈ "doctype" :: "html-node" :: s.chunks.map (·.name)) ∧
      Acyclic (s.chunks.map fun c => (c.name, c.linkAfter))) ∧
    (∀ text, (entry.chunks p options).link .html = .ok text → ∃ later : List ExtraChunk,
      later.Perm s.chunks ∧
      text = "\n".intercalate ("<!DOCTYPE html>" :: (document p options).toHtml ::
        (later.filter (·.flags = [])).map (·.content))) ∧
    ∃ head body, (document p options).children = [head.toChild, body.toChild] ∧
      Holds p options head body := by
  obtain ⟨extra, hmakes, hchunks⟩ := exists_extra hentry
  have hstore : (entry.chunks p options).ofType .html = ownChunks p options ++ extra := by
    rw [hchunks, hpreset]
    exact ofType_addAll hmakes hnames
  have hall : ((ownChunks p options ++ extra).map (·.name)).Nodup := by
    rw [names_append hmakes]
    exact hnames
  have hlead : Leading (links (ownChunks p options)) := links_ownChunks p options ▸ leading_ownLinks
  obtain ⟨hlinks, htexts⟩ := link_of_leading hstore hall hlead (accepts_of_mem hmakes)
  refine ⟨?_, fun text htext => ?_, exists_holds p options⟩
  · have hasked : (∀ c ∈ extra, ∀ link ∈ c.linkAfter,
        link ∈ "doctype" :: "html-node" :: s.chunks.map (·.name)) ↔
        ∀ item ∈ links extra, ∀ link ∈ item.2,
          link ∈ "doctype" :: "html-node" :: s.chunks.map (·.name) := by
      rw [links, List.forall_mem_map]
    rw [hlinks, names_append hmakes, hasked, links_eq_of_makes hmakes, List.forall_mem_map]
  · obtain ⟨later, hperm, rfl⟩ := htexts text htext
    obtain ⟨asked, hasked, hreordered⟩ := List.perm_comp_forall₂ hperm hmakes.flip
    refine ⟨asked, hreordered, ?_⟩
    rw [List.filter_append, List.map_append, texts_eq_of_makes hasked.flip]
    rfl

/-- Settings with a chunk that follows a later one, and with one that is not written. -/
def bannered : EntrySettings where
  chunks := [{ name := "banner", content := "<!-- banner -->", linkAfter := ["notice"] },
    { name := "notice", content := "<!-- notice -->", linkAfter := ["html-node"] },
    { name := "anchor", linkAfter := ["doctype"], flags := ["hidden"] }]

def hosting : EntrySection where
  generator := .entryFile
  path := ["public"]
  fileName := "index"
  chunks := Entry.chunks
  options := {}

theorem acyclic_bannered : Acyclic (bannered.chunks.map fun c => (c.name, c.linkAfter)) := by
  have hnames : ((ownLinks ++
      bannered.chunks.map fun c => (c.name, c.linkAfter)).map (·.1)).Nodup := by decide
  have horder : resolve .html (ownLinks ++
      bannered.chunks.map fun c => (c.name, c.linkAfter)) = .ok [0, 1, 3, 2, 4] := by decide
  exact (leading_ownLinks.acyclic_append_iff hnames).1
    ((exists_resolve_ok_iff .html hnames).1 ⟨_, horder⟩).2

def tagged : EntryOptions where
  assetsPrefix := "/static"
  customTags := [{ name := "noscript", content := "Turn scripts on" },
    { name := "script", target := .head,
      attributes := [{ key := "src", value := "/shim.js" }, { key := "nomodule" }] }]

def scripted : Project where
  name := "shop"
  globals :=
    { assets := [{ kind := .script, content := "start()", options := { target := "body" } },
        { kind := .script, path := "/app.js", options := { defer := true } }]
      customCode := some { body := "<!-- end -->" } }
  root := { name := "App", node := .text "" }

theorem entry_document_leads_bannered : ∃ entry, bannered.entry hosting = .ok entry ∧
    ("doctype" :: "html-node" :: bannered.chunks.map (·.name)).Nodup ∧
    (∀ p options, ∃ text texts, (entry.chunks p options).link .html = .ok text ∧
      texts.Perm ["<!-- banner -->", "<!-- notice -->"] ∧
      text = "\n".intercalate ("<!DOCTYPE html>" :: (document p options).toHtml :: texts)) ∧
    ∃ head body : Markup.Element,
      (document scripted tagged).children = [head.toChild, body.toChild] ∧
      body.children = [.element "div" [("id", .literal "app")] [],
        .element "noscript" [] [.text "Turn scripts on"],
        .element "script" [("type", .literal "text/javascript")] [.text "start()"],
        .raw "<!-- end -->"] ∧
      head.elements.filter (·.tag = "script") =
        [⟨"script", [("src", .literal "/shim.js"), ("nomodule", .flag)], []⟩,
          ⟨"script", [("type", .literal "text/javascript"), ("src", .literal "/static/app.js"),
            ("defer", .flag)], []⟩] := by
  have hnames : ("doctype" :: "html-node" :: bannered.chunks.map (·.name)).Nodup := by decide
  have hpreset : hosting.chunks = Entry.chunks := rfl
  refine ⟨_, rfl, hnames, fun p options => ?_, ?_⟩
  · obtain ⟨hlinks, htexts, -⟩ := entry_document_leads hpreset rfl hnames p options
    obtain ⟨text, htext⟩ := hlinks.2 ⟨by decide, acyclic_bannered⟩
    obtain ⟨later, hperm, rfl⟩ := htexts text htext
    exact ⟨_, _, htext, (hperm.filter _).map _, rfl⟩
  · obtain ⟨-, -, head, body, hdocument, hholds⟩ :=
      entry_document_leads hpreset rfl hnames scripted tagged
    refine ⟨head, body, hdocument, ?_, ?_⟩
    · obtain ⟨custom, scripts, hcustom, hscripts, hbody⟩ := hholds.body
      obtain ⟨noscript, _, hnoscript, hnil, rfl⟩ := List.forall₂_cons_left_iff.1 hcustom
      obtain rfl := List.forall₂_nil_left_iff.1 hnil
      obtain ⟨start, _, hstart, hnil, rfl⟩ := List.forall₂_cons_left_iff.1 hscripts
      obtain rfl := List.forall₂_nil_left_iff.1 hnil
      rw [hbody, hnoscript.eq (isCustomTag_customTag _), hstart.eq (isScript_assetScript _ _)]
      rfl
    · obtain ⟨custom, scripts, hcustom, hscripts, hhead⟩ := hholds.head
      obtain ⟨shim, _, hshim, hnil, rfl⟩ := List.forall₂_cons_left_iff.1 hcustom
      obtain rfl := List.forall₂_nil_left_iff.1 hnil
      obtain ⟨app, _, happ, hnil, rfl⟩ := List.forall₂_cons_left_iff.1 hscripts
      obtain rfl := List.forall₂_nil_left_iff.1 hnil
      rw [hhead, hshim.eq (isCustomTag_customTag _), happ.eq (isScript_assetScript _ _)]
      rfl

end Sitewright
