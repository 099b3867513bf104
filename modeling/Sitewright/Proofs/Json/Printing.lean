import Sitewright.Json.Reader
import Sitewright.Json.Decode
import Sitewright.Proofs.Json.Scanning

/-!
# Reading what was written

A value is read back from its text over several lines if all of it can be read, its containers are
nested no deeper than the reader goes, and each of its numbers is scanned from its own text.
-/

namespace Sitewright.Json

/-! ## Numbers, and containers around a value -/

mutual
def numbers : Json → List Number
  | .number n => [n]
  | .array items => itemsNumbers items
  | .object fields => fieldsNumbers fields
  | _ => []

def itemsNumbers : List Json → List Number
  | [] => []
  | item :: rest => item.numbers ++ itemsNumbers rest

def fieldsNumbers : List (String × Json) → List Number
  | [] => []
  | (_, value) :: rest => value.numbers ++ fieldsNumbers rest
end

/-- A number that is scanned from its own text. -/
def Number.Survives (n : Number) : Prop :=
  scanToken n.text.toList = some (.number (some n), [])

/-- A value that can be read back within some containers. -/
structure Printable (depth : Nat) (v : Json) : Prop where
  readable : v.isReadable = true
  fits : depth + v.depth ≤ depthLimit
  survives : ∀ n ∈ v.numbers, n.Survives

variable {depth : Nat} {items : List Json} {fields : List (String × Json)}

theorem areReadable_iff : areReadable items = true ↔ ∀ item ∈ items, item.isReadable = true := by
  induction items with
  | nil => simp [areReadable]
  | cons item rest ih => simp [areReadable, ih]

theorem itemsDepth_le_iff {limit : Nat} :
    itemsDepth items ≤ limit ↔ ∀ item ∈ items, item.depth ≤ limit := by
  induction items with
  | nil => simp [itemsDepth]
  | cons item rest ih => rw [itemsDepth, Nat.max_le, ih, List.forall_mem_cons]

theorem fieldsDepth_le_iff {limit : Nat} :
    fieldsDepth fields ≤ limit ↔ ∀ e ∈ fields, e.2.depth ≤ limit := by
  induction fields with
  | nil => simp [fieldsDepth]
  | cons e rest ih => rw [fieldsDepth, Nat.max_le, ih, List.forall_mem_cons]

theorem mem_itemsNumbers_iff {n : Number} :
    n ∈ itemsNumbers items ↔ ∃ item ∈ items, n ∈ item.numbers := by
  induction items with
  | nil => simp [itemsNumbers]
  | cons item rest ih => simp [itemsNumbers, ih]

theorem mem_fieldsNumbers_iff {n : Number} :
    n ∈ fieldsNumbers fields ↔ ∃ e ∈ fields, n ∈ e.2.numbers := by
  induction fields with
  | nil => simp [fieldsNumbers]
  | cons e rest ih => simp [fieldsNumbers, ih]

theorem add_succ_le_depthLimit_iff {d : Nat} :
    depth + (d + 1) ≤ depthLimit ↔ depth < depthLimit ∧ d ≤ depthLimit - (depth + 1) := by
  omega

theorem printable_array : Printable depth (.array items) ↔
    depth < depthLimit ∧ ∀ item ∈ items, Printable (depth + 1) item := by
  constructor
  · intro h
    obtain ⟨hdepth, hitems⟩ := add_succ_le_depthLimit_iff.1 h.fits
    refine ⟨hdepth, fun item hitem => ⟨areReadable_iff.1 h.readable item hitem, ?_, fun n hn => ?_⟩⟩
    · have := itemsDepth_le_iff.1 hitems item hitem
      omega
    · exact h.survives n (mem_itemsNumbers_iff.2 ⟨item, hitem, hn⟩)
  · rintro ⟨hdepth, hitems⟩
    refine ⟨areReadable_iff.2 fun item hitem => (hitems item hitem).readable, ?_, fun n hn => ?_⟩
    · refine add_succ_le_depthLimit_iff.2 ⟨hdepth, itemsDepth_le_iff.2 fun item hitem => ?_⟩
      have := (hitems item hitem).fits
      omega
    · obtain ⟨item, hitem, hn⟩ := mem_itemsNumbers_iff.1 hn
      exact (hitems item hitem).survives n hn

theorem printable_object : Printable depth (.object fields) ↔
    depth < depthLimit ∧ ∀ e ∈ fields, Printable (depth + 1) e.2 := by
  constructor
  · intro h
    obtain ⟨hdepth, hfields⟩ := add_succ_le_depthLimit_iff.1 h.fits
    refine ⟨hdepth, fun e he => ⟨fieldsReadable_iff.1 h.readable e he, ?_, fun n hn => ?_⟩⟩
    · have := fieldsDepth_le_iff.1 hfields e he
      omega
    · exact h.survives n (mem_fieldsNumbers_iff.2 ⟨e, he, hn⟩)
  · rintro ⟨hdepth, hfields⟩
    refine ⟨fieldsReadable_iff.2 fun e he => (hfields e he).readable, ?_, fun n hn => ?_⟩
    · refine add_succ_le_depthLimit_iff.2 ⟨hdepth, fieldsDepth_le_iff.2 fun e he => ?_⟩
      have := (hfields e he).fits
      omega
    · obtain ⟨e, he, hn⟩ := mem_fieldsNumbers_iff.1 hn
      exact (hfields e he).survives n hn

/-! ## Steps of the reader -/

/-- From a state of the reader, a text is read to its end as a value. -/
inductive ReadsTo (v : Json) : Expecting → List Char → Prop
  | done : ReadsTo v (.next v []) []
  | space {state : Expecting} {c : Char} {rest : List Char} (hc : isSpace c = true)
      (h : ReadsTo v state rest) : ReadsTo v state (c :: rest)
  | token {state after : Expecting} {lexeme rest : List Char} {token : Token}
      (hhead : lexeme.head?.map isSpace = some false)
      (hscan : scanToken (lexeme ++ rest) = some (token, rest))
      (hstep : step state token = some after) (h : ReadsTo v after rest) :
      ReadsTo v state (lexeme ++ rest)

variable {v r : Json} {state : Expecting} {text rest : List Char}

theorem run_token (state : Expecting) (token : Token) (tokens : List Token) :
    run state (token :: tokens) = (step state token).bind (run · tokens) := by
  cases state with
  | next v stack => cases stack <;> rfl
  | _ => rfl

theorem ReadsTo.run (h : ReadsTo v state text) {count : Nat} (hcount : text.length ≤ count) :
    (scanTokens count text).bind (run state) = some v := by
  induction h generalizing count with
  | done => cases count <;> rfl
  | @space state c rest hc h ih =>
    have hskip : scanTokens count (c :: rest) = scanTokens count rest := by
      cases count <;> simp [scanTokens, hc]
    rw [hskip]
    exact ih (Nat.le_of_succ_le hcount)
  | @token state after lexeme rest token hhead hscan hstep h ih =>
    cases lexeme with
    | nil => cases hhead
    | cons c lexeme =>
      cases count with
      | zero => cases hcount
      | succ count =>
        have hc : isSpace c = false := Option.some.inj hhead
        have hrest : rest.length ≤ count := by
          simp only [List.cons_append, List.length_cons, List.length_append] at hcount
          omega
        rw [List.cons_append] at hscan ⊢
        obtain ⟨tokens, htokens, hrun⟩ := Option.bind_eq_some_iff.1 (ih hrest)
        have hscans : scanTokens (count + 1) (c :: (lexeme ++ rest)) = some (token :: tokens) := by
          simp [scanTokens, hc, hscan, htokens]
        rw [hscans, Option.bind_some, run_token, hstep, Option.bind_some, hrun]

theorem ReadsTo.read? {text : String} (h : ReadsTo v (.value false []) text.toList) :
    Json.read? text = some v :=
  h.run (Nat.le_refl _)

theorem ReadsTo.mark {after : Expecting} {c : Char} {token : Token} (hc : isSpace c = false)
    (hscan : scanToken (c :: rest) = some (token, rest)) (hstep : step state token = some after)
    (h : ReadsTo r after rest) : ReadsTo r state (c :: rest) := by
  rw [← List.singleton_append] at hscan ⊢
  exact .token (congrArg some hc) hscan hstep h

theorem toList_newline (indent : Nat) :
    (Json.newline indent).toList = '\n' :: List.replicate (2 * indent) ' ' :=
  String.toList_ofList

theorem ReadsTo.newline (h : ReadsTo r state rest) (indent : Nat) :
    ReadsTo r state ((Json.newline indent).toList ++ rest) := by
  have hspaces (count : Nat) : ReadsTo r state (List.replicate count ' ' ++ rest) := by
    induction count with
    | zero => exact h
    | succ count ih => exact .space rfl ih
  rw [toList_newline, List.cons_append]
  exact .space rfl (hspaces _)

/-- A word whose text is scanned as one token. -/
theorem ReadsTo.word {after : Expecting} {token : Token} {lexeme text : List Char}
    (htext : text = lexeme) (hhead : lexeme.head?.map isSpace = some false)
    (hscan : scanToken (lexeme ++ rest) = some (token, rest))
    (hstep : step state token = some after) (h : ReadsTo r after rest) :
    ReadsTo r state (text ++ rest) := by
  rw [htext]
  exact .token hhead hscan hstep h

theorem ReadsTo.string {after : Expecting} {s : String}
    (hstep : step state (.string (some s)) = some after) (h : ReadsTo r after rest) :
    ReadsTo r state ((quoted s).toList ++ rest) :=
  .token (by simp [quoted, isSpace]) (scanToken_quoted s rest) hstep h

theorem isSpace_of_isDigit {c : Char} (hc : c.isDigit = true) : isSpace c = false := by
  rw [isSpace, Bool.eq_false_iff]
  intro hspace
  simp only [Bool.or_eq_true, beq_iff_eq] at hspace
  obtain ((rfl | rfl) | rfl) | rfl := hspace <;> cases hc

theorem ReadsTo.number {after : Expecting} {n : Number} (hn : n.Survives) (hrest : EndsNumber rest)
    (hstep : step state (.number (some n)) = some after) (h : ReadsTo r after rest) :
    ReadsTo r state (n.text.toList ++ rest) := by
  have hscan : scanToken n.text.toList = some (.number (some n), []) := hn
  refine .token ?_ (scanToken_number_append hrest hscan) hstep h
  cases htext : n.text.toList with
  | nil => rw [htext] at hscan; cases hscan
  | cons c text =>
    rw [htext] at hscan
    obtain rfl | hc := begins_number hscan
    · rfl
    · exact congrArg some (isSpace_of_isDigit hc)

/-- The fields of an object that is still open, as the reader keeps them. -/
def pending (fields : List (String × Json)) : List (Option String × Json) :=
  (fields.map fun e => (some e.1, e.2)).reverse

/-! ### One lemma for each token around a value -/

section Steps

variable {canClose : Bool} {stack : List Frame} {before : List Json} {key : String}
  {earlier : List (String × Json)}

theorem ReadsTo.openBracket (h : ReadsTo r (.value true (.array [] :: stack)) rest) :
    ReadsTo r (.value canClose stack) ('[' :: rest) :=
  .mark rfl rfl rfl h

theorem ReadsTo.emptyArray (hdepth : stack.length < depthLimit)
    (h : ReadsTo r (.next (.array []) stack) rest) :
    ReadsTo r (.value true (.array [] :: stack)) (']' :: rest) := by
  refine .mark rfl rfl rfl ?_
  rwa [atDepth, if_pos hdepth]

theorem ReadsTo.nextItem (h : ReadsTo r (.value false (.array (v :: before) :: stack)) rest) :
    ReadsTo r (.next v (.array before :: stack)) (',' :: rest) :=
  .mark rfl rfl rfl h

theorem ReadsTo.closeArray (hdepth : stack.length < depthLimit)
    (h : ReadsTo r (.next (.array (v :: before).reverse) stack) rest) :
    ReadsTo r (.next v (.array before :: stack)) (']' :: rest) := by
  refine .mark rfl rfl rfl ?_
  rwa [atDepth, if_pos hdepth]

theorem ReadsTo.openBrace (h : ReadsTo r (.key true (pending []) stack) rest) :
    ReadsTo r (.value canClose stack) ('\x7b' :: rest) :=
  .mark rfl rfl rfl h

theorem ReadsTo.emptyObject (hdepth : stack.length < depthLimit)
    (h : ReadsTo r (.next (.object []) stack) rest) :
    ReadsTo r (.key true (pending []) stack) ('\x7d' :: rest) := by
  refine .mark rfl rfl rfl ?_
  rwa [atDepth, if_pos hdepth]

theorem pending_snoc (earlier : List (String × Json)) (e : String × Json) :
    pending (earlier ++ [e]) = (some e.1, e.2) :: pending earlier := by
  simp [pending]

theorem closeObject_pending (fields : List (String × Json)) :
    closeObject (pending fields) = .object fields := by
  have hfields : (fields.map fun e => (some e.1, e.2)).mapM
      (fun e : Option String × Json => e.1.map fun key => (key, e.2)) = some fields := by
    induction fields with
    | nil => rfl
    | cons e fields ih => simp [ih]
  rw [closeObject, pending, List.reverse_reverse, hfields]

theorem ReadsTo.fieldName
    (h : ReadsTo r (.value false (.object (pending earlier) key :: stack)) rest) :
    ReadsTo r (.key canClose (pending earlier) stack)
      ((quoted key).toList ++ ':' :: ' ' :: rest) := by
  have hstep : step (.key canClose (pending earlier) stack) (.string key) =
      some (.colon (pending earlier) key stack) := by
    cases canClose <;> rfl
  exact .string hstep (.mark rfl rfl rfl (.space rfl h))

theorem ReadsTo.nextField
    (h : ReadsTo r (.key false (pending (earlier ++ [(key, v)])) stack) rest) :
    ReadsTo r (.next v (.object (pending earlier) key :: stack)) (',' :: rest) := by
  rw [pending_snoc] at h
  exact .mark rfl rfl rfl h

theorem ReadsTo.closeObject (hdepth : stack.length < depthLimit)
    (h : ReadsTo r (.next (.object (earlier ++ [(key, v)])) stack) rest) :
    ReadsTo r (.next v (.object (pending earlier) key :: stack)) ('\x7d' :: rest) := by
  refine .mark rfl rfl rfl ?_
  rwa [atDepth, if_pos hdepth, ← pending_snoc earlier (key, v), closeObject_pending]

end Steps

/-! ## The text of a value -/

theorem EndsNumber.nil : EndsNumber [] := by simp [EndsNumber]

theorem EndsNumber.cons {c : Char} (hc : c.isDigit = false ∧ c ≠ '.' ∧ c ≠ 'e' ∧ c ≠ 'E') :
    EndsNumber (c :: rest) := by
  simpa [EndsNumber] using hc

section Texts

variable (indent : Nat) (item value : Json) (items : List Json) (key : String)
  (fields : List (String × Json))

theorem toList_null : (Json.null.prettyAt indent).toList = ['n', 'u', 'l', 'l'] := by
  simp [prettyAt]

theorem toList_true : ((Json.bool true).prettyAt indent).toList = ['t', 'r', 'u', 'e'] := by
  simp [prettyAt]

theorem toList_false : ((Json.bool false).prettyAt indent).toList = ['f', 'a', 'l', 's', 'e'] := by
  simp [prettyAt]

theorem toList_emptyArray : ((Json.array []).prettyAt indent).toList = ['[', ']'] := by
  simp [prettyAt]

theorem toList_emptyObject : ((Json.object []).prettyAt indent).toList = ['\x7b', '\x7d'] := by
  simp [prettyAt]

theorem toList_array : ((Json.array (item :: items)).prettyAt indent).toList =
    '[' :: ((Json.newline (indent + 1)).toList ++ ((item.prettyAt (indent + 1)).toList ++
      ((prettyItems (indent + 1) items).toList ++ ((Json.newline indent).toList ++ [']'])))) := by
  simp [prettyAt]

theorem toList_prettyItems : (prettyItems indent (item :: items)).toList =
    ',' :: ((Json.newline indent).toList ++
      ((item.prettyAt indent).toList ++ (prettyItems indent items).toList)) := by
  simp [prettyItems]

theorem toList_object : ((Json.object ((key, value) :: fields)).prettyAt indent).toList =
    '\x7b' :: ((Json.newline (indent + 1)).toList ++ ((quoted key).toList ++ ':' :: ' ' ::
      ((value.prettyAt (indent + 1)).toList ++ ((prettyFields (indent + 1) fields).toList ++
        ((Json.newline indent).toList ++ ['\x7d']))))) := by
  simp [prettyAt]

theorem toList_prettyFields : (prettyFields indent ((key, value) :: fields)).toList =
    ',' :: ((Json.newline indent).toList ++ ((quoted key).toList ++ ':' :: ' ' ::
      ((value.prettyAt indent).toList ++ (prettyFields indent fields).toList))) := by
  simp [prettyFields]

end Texts

theorem endsNumber_newline (indent : Nat) (rest : List Char) :
    EndsNumber ((Json.newline indent).toList ++ rest) := by
  rw [toList_newline]
  exact .cons (by decide)

theorem endsNumber_items (indent : Nat) (items : List Json) (hrest : EndsNumber rest) :
    EndsNumber ((prettyItems indent items).toList ++ rest) := by
  cases items with
  | nil => exact hrest
  | cons item items =>
    rw [toList_prettyItems]
    exact .cons (by decide)

theorem endsNumber_fields (indent : Nat) (fields : List (String × Json)) (hrest : EndsNumber rest) :
    EndsNumber ((prettyFields indent fields).toList ++ rest) := by
  cases fields with
  | nil => exact hrest
  | cons e fields =>
    rw [toList_prettyFields]
    exact .cons (by decide)

mutual
/-- What is written for a value is read as the value, whatever is read after it. -/
theorem ReadsTo.value {canClose : Bool} {stack : List Frame} (indent : Nat) :
    ∀ {v : Json} {rest : List Char}, Printable stack.length v → EndsNumber rest →
      ReadsTo r (.next v stack) rest →
      ReadsTo r (.value canClose stack) ((v.prettyAt indent).toList ++ rest)
  | .null, _, _, _, h => .word (toList_null indent) rfl rfl rfl h
  | .unreadable, _, hv, _, _ => absurd hv.readable (by decide)
  | .bool b, _, _, _, h => by
    cases b with
    | true => exact .word (toList_true indent) rfl rfl rfl h
    | false => exact .word (toList_false indent) rfl rfl rfl h
  | .number n, _, hv, hrest, h => .number (hv.survives n (by simp [numbers])) hrest rfl h
  | .string _, _, _, _, h => .string rfl h
  | .array [], _, hv, _, h => by
    rw [toList_emptyArray]
    exact .openBracket (.emptyArray (printable_array.1 hv).1 h)
  | .array (item :: items), rest, hv, _, h => by
    obtain ⟨hdepth, hitems⟩ := printable_array.1 hv
    obtain ⟨hitem, hitems⟩ := List.forall_mem_cons.1 hitems
    simp only [toList_array, List.cons_append, List.append_assoc, List.nil_append]
    refine .openBracket (.newline ?_ _)
    refine ReadsTo.value (indent + 1) hitem ?_ ?_
    · exact endsNumber_items _ _ (endsNumber_newline _ _)
    · exact .laterItems (indent + 1) indent hdepth hitems h
  | .object [], rest, hv, _, h => by
    rw [toList_emptyObject]
    exact .openBrace (.emptyObject (printable_object.1 hv).1 h)
  | .object ((key, value) :: fields), rest, hv, _, h => by
    obtain ⟨hdepth, hfields⟩ := printable_object.1 hv
    obtain ⟨hvalue, hfields⟩ := List.forall_mem_cons.1 hfields
    simp only [toList_object, List.cons_append, List.append_assoc, List.nil_append]
    refine .openBrace (.newline (.fieldName (.value (indent + 1) hvalue ?_ ?_)) _)
    · exact endsNumber_fields _ _ (endsNumber_newline _ _)
    · exact .laterFields (indent + 1) indent hdepth hfields h

theorem ReadsTo.laterItems {stack : List Frame} (indent closing : Nat) :
    ∀ {items before : List Json} {v : Json} {rest : List Char}, stack.length < depthLimit →
      (∀ item ∈ items, Printable (stack.length + 1) item) →
      ReadsTo r (.next (.array ((v :: before).reverse ++ items)) stack) rest →
      ReadsTo r (.next v (.array before :: stack))
        ((prettyItems indent items).toList ++ ((Json.newline closing).toList ++ ']' :: rest))
  | [], before, v, rest, hdepth, _, h => by
    rw [List.append_nil] at h
    exact .newline (.closeArray hdepth h) closing
  | item :: items, before, v, rest, hdepth, hitems, h => by
    obtain ⟨hitem, hitems⟩ := List.forall_mem_cons.1 hitems
    simp only [toList_prettyItems, List.cons_append, List.append_assoc]
    refine .nextItem (.newline ?_ _)
    refine ReadsTo.value indent hitem ?_ ?_
    · exact endsNumber_items _ _ (endsNumber_newline _ _)
    · refine .laterItems indent closing hdepth hitems ?_
      rwa [List.reverse_cons, List.append_assoc]

theorem ReadsTo.laterFields {stack : List Frame} (indent closing : Nat) :
    ∀ {fields earlier : List (String × Json)} {key : String} {v : Json} {rest : List Char},
      stack.length < depthLimit → (∀ e ∈ fields, Printable (stack.length + 1) e.2) →
      ReadsTo r (.next (.object (earlier ++ (key, v) :: fields)) stack) rest →
      ReadsTo r (.next v (.object (pending earlier) key :: stack))
        ((prettyFields indent fields).toList ++ ((Json.newline closing).toList ++ '\x7d' :: rest))
  | [], earlier, key, v, rest, hdepth, _, h => .newline (.closeObject hdepth h) closing
  | (name, value) :: fields, earlier, key, v, rest, hdepth, hfields, h => by
    obtain ⟨hvalue, hfields⟩ := List.forall_mem_cons.1 hfields
    simp only [toList_prettyFields, List.cons_append, List.append_assoc]
    refine .nextField (.newline (.fieldName (.value indent hvalue ?_ ?_)) _)
    · exact endsNumber_fields _ _ (endsNumber_newline _ _)
    · refine .laterFields indent closing hdepth hfields ?_
      rwa [List.append_assoc, List.singleton_append]
end

/-- A value that is nested no deeper than the reader goes is read back from its text if its numbers
are scanned from theirs. -/
theorem read?_pretty (h : Printable 0 v) : Json.read? v.pretty = some v := by
  have hreads : ReadsTo v (.value false []) ((v.prettyAt 0).toList ++ []) :=
    ReadsTo.value 0 h .nil .done
  rw [List.append_nil] at hreads
  exact hreads.read?

/-! ## The texts of objects -/

theorem brace_notMem_digitsOf (n : Nat) : '\x7b' ∉ digitsOf n := fun h =>
  absurd (Nat.isDigit_of_mem_toDigits (by decide) (by decide) h) (by decide)

theorem brace_notMem_write (format : DoubleFormat) (d : Decimal) : '\x7b' ∉ format.write d := by
  have hdigits := brace_notMem_digitsOf d.digits
  have htake (k : Nat) : '\x7b' ∉ (digitsOf d.digits).take k := fun h =>
    hdigits (List.mem_of_mem_take h)
  have hdrop (k : Nat) : '\x7b' ∉ (digitsOf d.digits).drop k := fun h =>
    hdigits (List.mem_of_mem_drop h)
  have hrest := hdrop 1
  unfold DoubleFormat.write
  dsimp only
  generalize (digitsOf d.digits).drop 1 = rest at hrest ⊢
  split_ifs
  · decide
  · cases rest <;> simp_all [brace_notMem_digitsOf]
  · cases rest <;> simp_all [brace_notMem_digitsOf]
  · simp [hdigits]
  · simp [hdigits]
  · simp [htake, hdrop]

theorem brace_notMem_text (n : Number) : '\x7b' ∉ n.text.toList := by
  cases n with
  | integer n =>
    cases n with
    | ofNat m =>
      have htext : (Number.integer (.ofNat m)).text.toList = digitsOf m := Nat.toList_repr
      exact htext ▸ brace_notMem_digitsOf m
    | negSucc m =>
      have htext : (Number.integer (.negSucc m)).text.toList = '-' :: digitsOf (m + 1) := by
        simp [Number.text, Int.repr, digitsOf]
      exact htext ▸ by simp [brace_notMem_digitsOf]
  | double d =>
    have h := brace_notMem_write doubleFormat d.shortest
    cases hneg : d.negative <;> simpa [Number.text, hneg] using h

theorem head?_pretty_object (fields : List (String × Json)) :
    (Json.object fields).pretty.toList.head? = some '\x7b' := by
  cases fields with
  | nil => rw [pretty, toList_emptyObject, List.head?_cons]
  | cons e fields => rw [pretty, toList_object, List.head?_cons]

/-- The text of an object is the text of no other value. -/
theorem eq_object_of_pretty_eq {fields : List (String × Json)}
    (h : v.pretty = (Json.object fields).pretty) : ∃ fields, v = .object fields := by
  have hhead := head?_pretty_object fields
  rw [← h, pretty] at hhead
  cases v with
  | object fields => exact ⟨fields, rfl⟩
  | null => simp [prettyAt] at hhead
  | unreadable => simp [prettyAt] at hhead
  | bool b => cases b <;> simp [prettyAt] at hhead
  | number n => exact absurd (List.mem_of_head? hhead) (brace_notMem_text n)
  | string s => simp [prettyAt, quoted] at hhead
  | array items =>
    cases items with
    | nil => rw [toList_emptyArray] at hhead; cases hhead
    | cons item items => rw [toList_array] at hhead; cases hhead

end Sitewright.Json
