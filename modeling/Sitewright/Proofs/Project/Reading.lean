import Sitewright.Folder
import Sitewright.Project.Basic
import Sitewright.Proofs.Script.Reading
import Sitewright.Proofs.Ui.Reading

/-!
# Reading projects and folders back

Each record of a project is described by its fields. The formats of projects, of folders and of the
trees in chunks then read back what they wrote.
-/

namespace Sitewright

open Json

theorem AssetKind.decodes (k : AssetKind) : Decodes AssetKind.ofJson? (.string k.name) k :=
  .ofString (by cases k <;> rfl)

theorem AssetOptions.decodes (o : AssetOptions) : Decodes AssetOptions.ofJson? o.toJson o :=
  .record .plain
    [.nullable "target" o.target rfl fun s _ => .string s,
      .defaulted "defer" false (.bool o.defer),
      .defaulted "async" false (.bool o.isAsync),
      .nullable "iconType" o.iconType rfl fun s _ => .string s,
      .nullable "iconSizes" o.iconSizes rfl fun s _ => .string s]
    (by simp) rfl (by simp +contextual [ofJson?, Json.record?])

theorem Asset.decodes (a : Asset) : Decodes Asset.ofJson? a.toJson a :=
  .record .plain
    [.required "type" a.kind.decodes,
      .nullable "path" a.path rfl fun s _ => .string s,
      .nullable "content" a.content rfl fun s _ => .string s,
      .defaulted "options" {} a.options.decodes]
    (by simp) rfl (by simp +contextual [ofJson?, Json.record?])

theorem StateDefinition.decodes (s : StateDefinition) :
    Decodes StateDefinition.ofJson? s.toJson s :=
  .record .plain [.defaulted "defaultValue" .null (.document s.defaultValue)]
    (by simp) rfl (by simp +contextual [ofJson?, Json.record?])

theorem OutputOptions.decodes (o : OutputOptions) : Decodes OutputOptions.ofJson? o.toJson o :=
  .record .plain
    [.omitted "fileName" o.fileName rfl fun s _ => .string s,
      .defaulted "folderPath" [] (.strings o.folderPath),
      .omitted "componentClassName" o.className rfl fun s _ => .string s]
    (by simp) (by simp [toJson]) (by simp +contextual [ofJson?, Json.record?])

theorem Seo.decodes (s : Seo) : Decodes Seo.ofJson? s.toJson s :=
  .record .plain
    [.nullable "title" s.title rfl fun s _ => .string s,
      .defaulted "metaTags" [] (.list s.metaTags fun t _ => .stringTable t),
      .defaulted "assets" [] (.list s.assets fun a _ => a.decodes)]
    (by simp) rfl (by simp +contextual [ofJson?, Json.record?])

theorem DesignLanguage.decodes (d : DesignLanguage) : Decodes DesignLanguage.ofJson? d.toJson d :=
  .record .plain [.defaulted "tokens" ∅ (.stringTable d.tokens)]
    (by simp) rfl (by simp +contextual [ofJson?, Json.record?])

theorem Component.decodes (c : Component) : Decodes Component.ofJson? c.toJson c :=
  .record .plain
    [.required "name" (.string c.name),
      .required "node" (c.node.decodes .plain),
      .defaulted "stateDefinitions" ∅ (.table c.states fun s _ => s.2.decodes),
      .defaulted "outputOptions" {} c.output.decodes,
      .omitted "seo" c.seo rfl fun s _ => s.decodes,
      .defaulted "styleSetDefinitions" ∅ (.table c.styleSets fun t _ => .stringTable t.2),
      .omitted "designLanguage" c.designLanguage rfl fun d _ => d.decodes]
    (by simp) (by simp [toJson]) (by simp +contextual [ofJson?, styleSets?, Json.record?])

theorem ManifestIcon.decodes (i : ManifestIcon) : Decodes ManifestIcon.ofJson? i.toJson i :=
  .record .plain
    [.required "src" (.string i.src),
      .omitted "type" i.iconType rfl fun s _ => .string s,
      .omitted "sizes" i.sizes rfl fun s _ => .string s]
    (by simp) (by simp [toJson]) (by simp +contextual [ofJson?, Json.record?])

theorem WebManifest.decodes (m : WebManifest) : Decodes WebManifest.ofJson? m.toJson m :=
  .record .plain
    [.omitted "short_name" m.shortName rfl fun s _ => .string s,
      .omitted "name" m.name rfl fun s _ => .string s,
      .defaulted "icons" [] (.list m.icons fun i _ => i.decodes),
      .omitted "background_color" m.backgroundColor rfl fun s _ => .string s,
      .omitted "theme_color" m.themeColor rfl fun s _ => .string s,
      .omitted "display" m.display rfl fun s _ => .string s,
      .omitted "orientation" m.orientation rfl fun s _ => .string s,
      .omitted "start_url" m.startUrl rfl fun s _ => .string s]
    (by simp) (by simp [toJson, fields]) (by simp +contextual [ofJson?, Json.record?])

theorem Settings.decodes (s : Settings) : Decodes Settings.ofJson? s.toJson s :=
  .record .plain
    [.nullable "title" s.title rfl fun s _ => .string s,
      .nullable "language" s.language rfl fun s _ => .string s]
    (by simp) rfl (by simp +contextual [ofJson?, Json.record?])

theorem CustomCode.decodes (c : CustomCode) : Decodes CustomCode.ofJson? c.toJson c :=
  .record .plain
    [.nullable "head" c.head rfl fun s _ => .string s,
      .nullable "body" c.body rfl fun s _ => .string s]
    (by simp) rfl (by simp +contextual [ofJson?, Json.record?])

theorem Globals.decodes (g : Globals) : Decodes Globals.ofJson? g.toJson g :=
  .record .plain
    [.defaulted "settings" {} g.settings.decodes,
      .defaulted "meta" [] (.list g.metaTags fun t _ => .stringTable t),
      .defaulted "assets" [] (.list g.assets fun a _ => a.decodes),
      .nullable "manifest" g.manifest rfl fun m _ => m.decodes,
      .nullable "customCode" g.customCode rfl fun c _ => c.decodes]
    (by simp) rfl (by simp +contextual [ofJson?, Json.record?])

theorem Page.decodes (p : Page) : Decodes Page.ofJson? p.toJson p :=
  .record .plain
    [.required "navLink" (.string p.navLink), .required "component" p.component.decodes]
    (by simp) rfl (by simp +contextual [ofJson?, Json.record?])

theorem Project.decodes (p : Project) : Decodes Project.ofJson? p.toJson p :=
  .record .plain
    [.required "name" (.string p.name),
      .defaulted "globals" {} p.globals.decodes,
      .required "root" p.root.decodes,
      .defaulted "pages" [] (.list p.pages fun page _ => page.decodes),
      .defaulted "components" ∅ (.table p.components fun c _ => c.2.decodes)]
    (by simp) rfl (by simp +contextual [ofJson?, Json.record?])

theorem Encoding.decodes (e : Encoding) : Decodes Encoding.ofJson? (.string e.name) e :=
  .ofString (by cases e <;> rfl)

theorem Location.decodes (l : Location) : Decodes Location.ofJson? (.string l.name) l :=
  .ofString (by cases l <;> rfl)

theorem File.decodes (f : File) : Decodes File.ofJson? f.toJson f :=
  .record .plain
    [.required "name" (.string f.name),
      .required "content" (.string f.content),
      .defaulted "contentEncoding" .utf8 f.encoding.decodes,
      .omitted "fileType" f.extension rfl fun s _ => .string s,
      .defaulted "location" .inline f.location.decodes]
    (by simp) (by simp [toJson]) (by simp +contextual [ofJson?, Json.record?])

namespace Folder

mutual
theorem decodes_within :
    ∀ (f : Folder) {depth : Nat}, f.toJson.depth ≤ depth → Decodes (within? depth) f.toJson f
  | ⟨name, files, folders⟩, depth + 1, h => by
    have hfolders : itemsDepth (allToJson folders) < depth :=
      itemsDepth_lt (depth_lt_of_mem "subFolders" (by simp)) h
    exact .record .plain
      [.required "name" (.string name),
        .defaulted "files" [] (.list files fun f _ => f.decodes),
        .defaulted "subFolders" [] (.array (all_decode_within folders hfolders.le))]
      (by simp) rfl (by simp +contextual [within?, Json.record?])

theorem all_decode_within : ∀ (folders : List Folder) {depth : Nat},
    itemsDepth (allToJson folders) ≤ depth →
      List.Forall₂ (Decodes (within? depth)) (allToJson folders) folders
  | [], _, _ => .nil
  | f :: rest, _, h =>
    .cons (f.decodes_within ((le_max_left _ _).trans h))
      (all_decode_within rest ((le_max_right _ _).trans h))
end

theorem decodes (f : Folder) : Decodes Folder.ofJson? f.toJson f :=
  .atDepth (f := within?) (f.decodes_within le_rfl)

end Folder

/-- Projects, folders and the trees in chunks are read back from their JSON. -/
theorem formats_read_back :
    ReadsBack Project.toJson Project.ofJson? ∧ ReadsBack Folder.toJson Folder.ofJson? ∧
      ReadsBack Script.Node.toJson Script.Node.ofJson? ∧
      ReadsBack Script.Expr.toJson Script.Expr.ofJson? ∧
      ReadsBack Markup.Element.toJson Markup.Element.ofJson? :=
  ⟨Decodes.readsBack Project.decodes, Decodes.readsBack Folder.decodes,
    Decodes.readsBack Script.Node.decodes, Decodes.readsBack Script.Expr.decodes,
    Decodes.readsBack Markup.Element.decodes⟩

end Sitewright
