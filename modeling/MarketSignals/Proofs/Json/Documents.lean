import MarketSignals.Proofs.Json.Numerals
import MarketSignals.Json.Shape

/-!
# Reading documents back

The documents that the writers of this library compose, and the reader on their texts. Such a
document is read from the front of a text, whatever follows, so lists and objects can be read one
part after the other; the number of steps that this takes is no more than the characters of the
text. Fields are then found again under their names.

Floats are the exception. What is printed for a float is well-formed always, but the reader of
floats rounds more than once, and some floats come back as their neighbour. `ReadsBack` says of a
float that it does not, and `Readable` that some float comes back.

## Main results

* `Composed.read?_render`: the text of a composed document is read as the document.
* `Composed.isMeaningful`, `Composed.emptyAsNull`: such a document may be held whole, and holding it
  changes nothing.
* `fields?_ofFields`: the fields of a record are found again.
* `ReadsBack.exists_numeral`: what is printed for a float that is read back denotes it.
-/

namespace MarketSignals.Json

/-! ### Strings -/

/-- A written character is read as it stands, and the string goes on behind it. -/
theorem readBody_escapeChar (c : Char) (rest : List Char) :
    readBody (escapeChar c ++ rest) =
      (readBody rest).map fun read => (escapeChar c ++ read.1, read.2) := by
  unfold escapeChar
  split
  next letter hletter =>
    obtain ⟨hmeaning, hnotU⟩ := letterMeaning?_of_escapeLetter? hletter
    show readBody ('\\' :: letter :: rest) = _
    rw [readBody.eq_4 _ _ (by rintro a b c d rest rfl; exact absurd rfl hnotU), hmeaning]
    rfl
  next hplain =>
    obtain ⟨hquote, hbackslash⟩ := ne_of_escapeLetter?_eq_none hplain
    split
    next hcontrol =>
      show readBody ('\\' :: 'u' :: '0' :: '0' :: _ :: _ :: rest) = _
      rw [readBody, hexUnit?_control hcontrol]
      rfl
    next hprintable =>
      show readBody (c :: rest) = _
      rw [readBody.eq_5 c rest hquote (fun _ _ _ _ _ h => absurd h hbackslash)
        (fun _ _ h => absurd h hbackslash), if_neg (by simp [hbackslash, hprintable])]
      rfl

/-- A written text is read up to the closing quote. -/
theorem readBody_escape (text rest : List Char) :
    readBody (escape text ++ '"' :: rest) = some (escape text, rest) := by
  induction text with
  | nil => rfl
  | cons c text ih =>
      show readBody (escapeChar c ++ escape text ++ '"' :: rest) = _
      rw [List.append_assoc, readBody_escapeChar, ih]
      rfl

/-! ### Composed documents -/

/-- A document as the writers of this library compose it: its numbers are well-formed and denote
floats, its strings and names are written texts, and none of its objects is empty. -/
inductive Composed : Json → Prop
  | null : Composed .null
  | bool (value : Bool) : Composed (.bool value)
  | number {numeral : Numeral} (hgrammar : numeral.WellFormed)
      (hdenotes : numeral.float?.isSome = true) : Composed (.number numeral)
  | string (text : List Char) : Composed (.string (escape text))
  | array {items : List Json} (hitems : ∀ item ∈ items, Composed item) : Composed (.array items)
  | object {members : List (List Char × Json)} (hne : members ≠ [])
      (hnames : ∀ member ∈ members, ∃ name, member.1 = escape name)
      (hvalues : ∀ member ∈ members, Composed member.2) : Composed (.object members)

/-- A document is read from the front of a text that starts with the document's, given as many steps
as the document has characters. -/
def ReadsFront (d : Json) : Prop :=
  ∀ steps rest, d.render.length ≤ steps → EndsNumeral rest →
    readValue steps (d.render ++ rest) = some (d, rest)

theorem skipSpace_cons {c : Char} (hc : isSpace c = false) (rest : List Char) :
    skipSpace (c :: rest) = c :: rest := by
  simp [skipSpace, hc]

/-! ### Reading one value -/

theorem isSpace_of_first {c : Char} (hfirst : c = '-' ∨ c.isDigit = true) : isSpace c = false := by
  have hne := fun d hd hminus => Numeral.ne_of_first (d := d) hfirst hd hminus
  simp [isSpace, hne ' ' rfl (by decide), hne '\n' rfl (by decide), hne '\t' rfl (by decide),
    hne '\r' rfl (by decide)]

/-- A document starts with what is neither space nor the end of a list. -/
theorem Composed.exists_cons_render {d : Json} (hd : Composed d) :
    ∃ c text, d.render = c :: text ∧ isSpace c = false ∧ c ≠ ']' := by
  cases hd with
  | null => exact ⟨'n', _, by rw [render], rfl, by decide⟩
  | bool value =>
      cases value with
      | true => exact ⟨'t', _, by rw [render], rfl, by decide⟩
      | false => exact ⟨'f', _, by rw [render], rfl, by decide⟩
  | number hgrammar =>
      obtain ⟨c, text, hrender, hfirst⟩ := Numeral.exists_cons_render hgrammar
      exact ⟨c, text, by rw [render, hrender], isSpace_of_first hfirst,
        Numeral.ne_of_first hfirst rfl (by decide)⟩
  | string text => exact ⟨'"', _, by rw [render]; rfl, rfl, by decide⟩
  | array => exact ⟨'[', _, by rw [render], rfl, by decide⟩
  | object => exact ⟨'{', _, by rw [render], rfl, by decide⟩

/-- A written number is read. -/
theorem readsFront_number {numeral : Numeral} (hnumeral : numeral.WellFormed) :
    ReadsFront (.number numeral) := by
  intro steps rest hsteps hrest
  have hread := Numeral.readNumeral?_render hnumeral hrest
  obtain ⟨c, text, hrender, hfirst⟩ := numeral.exists_cons_render hnumeral
  rw [render, hrender] at hsteps ⊢
  rw [hrender] at hread
  obtain ⟨steps, rfl⟩ := Nat.exists_eq_add_one.mpr (Nat.zero_lt_of_lt hsteps)
  rw [List.cons_append] at hread ⊢
  rw [readValue.eq_2, skipSpace_cons (isSpace_of_first hfirst)]
  split
  case h_7 => rw [hread]; rfl
  all_goals
    next htext => exact absurd (List.cons.inj htext).1 (Numeral.ne_of_first hfirst rfl (by decide))

/-- A written string is read. -/
theorem readsFront_string (text : List Char) : ReadsFront (.string (escape text)) := by
  intro steps rest hsteps hrest
  rw [render] at hsteps ⊢
  obtain ⟨steps, rfl⟩ := Nat.exists_eq_add_one.mpr (Nat.zero_lt_of_lt hsteps)
  show (readBody ((escape text ++ ['"']) ++ rest)).map _ = _
  rw [List.append_assoc]
  show (readBody (escape text ++ '"' :: rest)).map _ = _
  rw [readBody_escape]
  rfl

/-! ### Reading lists and objects -/

theorem renderItems_cons {more : List Json} (item : Json) (hmore : more ≠ []) :
    renderItems (item :: more) = item.render ++ ',' :: renderItems more := by
  rw [renderItems]
  exact fun h => hmore h

theorem renderMembers_cons {more : List (List Char × Json)} (name : List Char) (value : Json)
    (hmore : more ≠ []) :
    renderMembers ((name, value) :: more) =
      quoted name ++ ':' :: value.render ++ ',' :: renderMembers more := by
  rw [renderMembers]
  exact fun h => hmore h

/-- Items are read up to the closing bracket. -/
theorem readItems_render {items : List Json} (hne : items ≠ [])
    (hread : ∀ item ∈ items, ReadsFront item) {steps : Nat} (rest : List Char)
    (hsteps : (renderItems items).length ≤ steps) :
    readItems steps (renderItems items ++ rest) = some (items, rest) := by
  induction items generalizing steps with
  | nil => exact absurd rfl hne
  | cons item more ih =>
      have hitem := hread item List.mem_cons_self
      have hrest : ∀ item ∈ more, ReadsFront item :=
        fun item hmem => hread item (List.mem_cons_of_mem _ hmem)
      -- The last item is followed by the bracket, every other one by a comma.
      by_cases hmore : more = []
      · subst hmore
        rw [renderItems, List.length_append, List.length_singleton] at hsteps
        obtain ⟨steps, rfl⟩ := Nat.exists_eq_add_one.mpr (Nat.zero_lt_of_lt hsteps)
        rw [renderItems, List.append_assoc, readItems,
          hitem steps _ (by omega) (by rintro c ⟨⟩; decide)]
        rfl
      · rw [renderItems_cons item hmore, List.length_append, List.length_cons] at hsteps
        obtain ⟨steps, rfl⟩ := Nat.exists_eq_add_one.mpr (Nat.zero_lt_of_lt hsteps)
        rw [renderItems_cons item hmore, List.append_assoc, readItems,
          hitem steps _ (by omega) (by rintro c ⟨⟩; decide)]
        show (readItems steps (renderItems more ++ rest)).map _ = _
        rw [ih hmore hrest (by omega)]
        rfl

/-- A name with its value is read. -/
theorem readMember_render {name : List Char} {value : Json} (hvalue : ReadsFront value)
    {steps : Nat} {rest : List Char} (hsteps : value.render.length < steps)
    (hrest : EndsNumeral rest) :
    readMember steps (quoted (escape name) ++ ':' :: value.render ++ rest) =
      some ((escape name, value), rest) := by
  obtain ⟨steps, rfl⟩ := Nat.exists_eq_add_one.mpr (Nat.zero_lt_of_lt hsteps)
  have hname : readBody (escape name ++ ['"'] ++ ':' :: value.render ++ rest) =
      some (escape name, ':' :: (value.render ++ rest)) := by
    rw [List.append_assoc, List.append_assoc]
    exact readBody_escape name _
  have hcolon : skipSpace (':' :: (value.render ++ rest)) = ':' :: (value.render ++ rest) :=
    skipSpace_cons rfl _
  have hopen : skipSpace (quoted (escape name) ++ ':' :: value.render ++ rest) =
      '"' :: (escape name ++ ['"'] ++ ':' :: value.render ++ rest) := skipSpace_cons rfl _
  simp only [readMember, hopen, hname, hcolon, hvalue steps rest (by omega) hrest]
  rfl

/-- Members are read up to the closing brace. -/
theorem readMembers_render {members : List (List Char × Json)} (hne : members ≠ [])
    (hnames : ∀ member ∈ members, ∃ name, member.1 = escape name)
    (hread : ∀ member ∈ members, ReadsFront member.2) {steps : Nat} (rest : List Char)
    (hsteps : (renderMembers members).length ≤ steps) :
    readMembers steps (renderMembers members ++ rest) = some (members, rest) := by
  induction members generalizing steps with
  | nil => exact absurd rfl hne
  | cons member more ih =>
      obtain ⟨⟨name, hname⟩, hnamesMore⟩ := List.forall_mem_cons.mp hnames
      obtain ⟨hreadValue, hreadMore⟩ := List.forall_mem_cons.mp hread
      obtain ⟨body, value⟩ := member
      obtain rfl : body = escape name := hname
      have hvalue : ReadsFront value := hreadValue
      by_cases hmore : more = []
      · subst hmore
        rw [renderMembers, List.length_append, List.length_append, List.length_cons,
          List.length_singleton] at hsteps
        obtain ⟨steps, rfl⟩ := Nat.exists_eq_add_one.mpr (Nat.zero_lt_of_lt hsteps)
        rw [renderMembers, List.append_assoc, readMembers,
          readMember_render hvalue (by omega) (by rintro c ⟨⟩; decide)]
        rfl
      · rw [renderMembers_cons _ _ hmore, List.length_append, List.length_append, List.length_cons,
          List.length_cons] at hsteps
        obtain ⟨steps, rfl⟩ := Nat.exists_eq_add_one.mpr (Nat.zero_lt_of_lt hsteps)
        rw [renderMembers_cons _ _ hmore, List.append_assoc, readMembers,
          readMember_render hvalue (by omega) (by rintro c ⟨⟩; decide)]
        show (readMembers steps (renderMembers more ++ rest)).map _ = _
        rw [ih hmore hnamesMore hreadMore (by omega)]
        rfl

/-- Items of which the first starts with neither space nor the closing bracket. -/
theorem exists_cons_renderItems {items : List Json} (hne : items ≠ [])
    (hitems : ∀ item ∈ items, Composed item) :
    ∃ c text, renderItems items = c :: text ∧ isSpace c = false ∧ c ≠ ']' := by
  obtain ⟨item, more, rfl⟩ := List.exists_cons_of_ne_nil hne
  obtain ⟨c, text, hrender, hspace, hbracket⟩ :=
    (hitems item List.mem_cons_self).exists_cons_render
  by_cases hmore : more = []
  · exact ⟨c, text ++ [']'], by rw [hmore, renderItems, hrender]; rfl, hspace, hbracket⟩
  · exact ⟨c, _, by rw [renderItems_cons item hmore, hrender]; rfl, hspace, hbracket⟩

theorem readValue_bracket (steps : Nat) {c : Char} {text : List Char} (hspace : isSpace c = false)
    (hbracket : c ≠ ']') :
    readValue (steps + 1) ('[' :: c :: text) =
      (readItems steps (c :: text)).map fun (items, rest) => (.array items, rest) := by
  have hopen : skipSpace ('[' :: c :: text) = '[' :: c :: text := skipSpace_cons rfl _
  simp only [readValue, hopen, skipSpace_cons hspace]
  split
  next htext => exact absurd (List.cons.inj htext).1 hbracket
  next => rfl

theorem readsFront_array {items : List Json} (hitems : ∀ item ∈ items, Composed item)
    (hread : ∀ item ∈ items, ReadsFront item) : ReadsFront (.array items) := by
  intro steps rest hsteps _
  rw [render, List.length_cons] at hsteps
  obtain ⟨steps, rfl⟩ := Nat.exists_eq_add_one.mpr (Nat.zero_lt_of_lt hsteps)
  rw [render, List.cons_append]
  by_cases hne : items = []
  · subst hne
    rw [renderItems]
    rfl
  · -- The reader looks one character ahead to tell an empty list.
    obtain ⟨c, text, hrender, hspace, hbracket⟩ := exists_cons_renderItems hne hitems
    have hlist := readItems_render hne hread rest (Nat.le_of_succ_le_succ hsteps)
    rw [hrender, List.cons_append] at hlist ⊢
    rw [readValue_bracket steps hspace hbracket, hlist]
    rfl

theorem readsFront_object {members : List (List Char × Json)} (hne : members ≠ [])
    (hnames : ∀ member ∈ members, ∃ name, member.1 = escape name)
    (hread : ∀ member ∈ members, ReadsFront member.2) : ReadsFront (.object members) := by
  intro steps rest hsteps _
  rw [render, List.length_cons] at hsteps
  obtain ⟨steps, rfl⟩ := Nat.exists_eq_add_one.mpr (Nat.zero_lt_of_lt hsteps)
  have hmembers := readMembers_render hne hnames hread rest (Nat.le_of_succ_le_succ hsteps)
  obtain ⟨text, hrender⟩ : ∃ text, renderMembers members = '"' :: text := by
    obtain ⟨member, more, rfl⟩ := List.exists_cons_of_ne_nil hne
    by_cases hmore : more = []
    · exact ⟨_, by rw [hmore, renderMembers]; rfl⟩
    · exact ⟨_, by rw [renderMembers_cons _ _ hmore]; rfl⟩
  rw [render, List.cons_append]
  rw [hrender, List.cons_append] at hmembers ⊢
  show (readMembers steps ('"' :: (text ++ rest))).map _ = _
  rw [hmembers]
  rfl

/-- **A composed document is read from the front of a text.** -/
theorem Composed.readsFront {d : Json} (hd : Composed d) : ReadsFront d := by
  induction hd with
  | null =>
      intro steps rest hsteps _
      rw [render] at hsteps ⊢
      obtain ⟨steps, rfl⟩ := Nat.exists_eq_add_one.mpr (Nat.zero_lt_of_lt hsteps)
      rfl
  | bool value =>
      intro steps rest hsteps _
      cases value with
      | true | false =>
          rw [render] at hsteps ⊢
          obtain ⟨steps, rfl⟩ := Nat.exists_eq_add_one.mpr (Nat.zero_lt_of_lt hsteps)
          rfl
  | number hgrammar => exact readsFront_number hgrammar
  | string text => exact readsFront_string text
  | array hitems ih => exact readsFront_array hitems ih
  | object hne hnames _ ih => exact readsFront_object hne hnames ih

theorem ReadsFront.read?_render {d : Json} (hd : ReadsFront d) : read? d.render = some d := by
  have hread := hd (2 * d.render.length + 1) [] (by omega) (fun c hc => nomatch hc)
  rw [List.append_nil] at hread
  rw [read?, hread]
  rfl

/-- **The text of a composed document is read as the document.** -/
theorem Composed.read?_render {d : Json} (hd : Composed d) : read? d.render = some d :=
  hd.readsFront.read?_render

/-! ### Documents that are held whole -/

theorem areMeaningful_iff {items : List Json} :
    areMeaningful items = true ↔ ∀ item ∈ items, item.isMeaningful = true := by
  induction items with
  | nil => simp [areMeaningful]
  | cons item more ih => simp [areMeaningful, ih]

theorem membersAreMeaningful_iff {members : List (List Char × Json)} :
    membersAreMeaningful members = true ↔
      ∀ member ∈ members, (unescape? member.1).isSome = true ∧ member.2.isMeaningful = true := by
  induction members with
  | nil => simp [membersAreMeaningful]
  | cons member more ih =>
      obtain ⟨name, value⟩ := member
      simp [membersAreMeaningful, ih]

theorem Composed.isMeaningful {d : Json} (hd : Composed d) : d.isMeaningful = true := by
  induction hd with
  | null | bool => rfl
  | number _ hdenotes => rw [Json.isMeaningful, hdenotes]
  | string text => rw [Json.isMeaningful, unescape?_escape]; rfl
  | array _ ih => rw [Json.isMeaningful, areMeaningful_iff]; exact ih
  | object _ hnames _ ih =>
      rw [Json.isMeaningful, membersAreMeaningful_iff]
      intro member hmem
      obtain ⟨name, hname⟩ := hnames member hmem
      exact ⟨by rw [hname, unescape?_escape]; rfl, ih member hmem⟩

theorem itemsEmptyAsNull_eq {items : List Json} (h : ∀ item ∈ items, item.emptyAsNull = item) :
    itemsEmptyAsNull items = items := by
  induction items with
  | nil => rfl
  | cons item more ih =>
      obtain ⟨hitem, hmore⟩ := List.forall_mem_cons.mp h
      rw [itemsEmptyAsNull, hitem, ih hmore]

theorem membersEmptyAsNull_eq {members : List (List Char × Json)}
    (h : ∀ member ∈ members, member.2.emptyAsNull = member.2) :
    membersEmptyAsNull members = members := by
  induction members with
  | nil => rfl
  | cons member more ih =>
      obtain ⟨hmember, hmore⟩ := List.forall_mem_cons.mp h
      rw [membersEmptyAsNull, hmember, ih hmore]

/-- A composed document has no empty object, so nothing in it stands for an absent value. -/
theorem Composed.emptyAsNull {d : Json} (hd : Composed d) : d.emptyAsNull = d := by
  induction hd with
  | null | bool | number | string => rfl
  | array _ ih => rw [Json.emptyAsNull, itemsEmptyAsNull_eq ih]
  | object hne _ _ ih =>
      rw [Json.emptyAsNull, membersEmptyAsNull_eq ih]
      exact hne

/-! ### The writers -/

theorem depthOfItems_le {items : List Json} {k : Nat} (h : ∀ item ∈ items, item.depth ≤ k) :
    depthOfItems items ≤ k := by
  induction items with
  | nil => exact Nat.zero_le k
  | cons item more ih =>
      obtain ⟨hitem, hmore⟩ := List.forall_mem_cons.mp h
      rw [depthOfItems]
      exact max_le hitem (ih hmore)

theorem depthOfMembers_le {members : List (List Char × Json)} {k : Nat}
    (h : ∀ member ∈ members, member.2.depth ≤ k) : depthOfMembers members ≤ k := by
  induction members with
  | nil => exact Nat.zero_le k
  | cons member more ih =>
      obtain ⟨hmember, hmore⟩ := List.forall_mem_cons.mp h
      rw [depthOfMembers]
      exact max_le hmember (ih hmore)

/-- A field with its name as it stands between quotes. -/
def writtenMember (field : String × Json) : List Char × Json :=
  (escape field.1.toList, field.2)

theorem ofFields_eq (fields : List (String × Json)) :
    ofFields fields = .object (fields.map writtenMember) :=
  rfl

/-- A composed document in which no more than some number of arrays and objects enclose a value. -/
structure ComposedIn (k : Nat) (d : Json) : Prop where
  /-- The document is composed. -/
  composed : Composed d
  /-- It does not nest deeper. -/
  depth_le : d.depth ≤ k

namespace ComposedIn

variable {k : Nat}

theorem mono {l : Nat} {d : Json} (hd : ComposedIn k d) (hle : k ≤ l) : ComposedIn l d :=
  ⟨hd.composed, hd.depth_le.trans hle⟩

theorem ofText (text : String) : ComposedIn k (ofText text) :=
  ⟨.string text.toList, Nat.zero_le k⟩

theorem ofNat {count : Nat} (hcount : count < 2 ^ 64) : ComposedIn k (ofNat count) :=
  ⟨.number (Numeral.wellFormed_ofNat count) (Numeral.float?_ofNat hcount), Nat.zero_le k⟩

theorem ofItems {items : List Json} (hitems : ∀ item ∈ items, ComposedIn k item) :
    ComposedIn (k + 1) (.array items) := by
  refine ⟨.array fun item hitem => (hitems item hitem).composed, ?_⟩
  rw [depth, Nat.add_comm]
  exact Nat.add_le_add_right (depthOfItems_le fun item hitem => (hitems item hitem).depth_le) 1

theorem ofTexts (texts : List String) : ComposedIn (k + 1) (ofTexts texts) :=
  ofItems fun item hitem => by
    obtain ⟨text, -, rfl⟩ := List.mem_map.mp hitem
    exact ofText text

theorem ofFields {fields : List (String × Json)} (hne : fields ≠ [])
    (hvalues : ∀ field ∈ fields, ComposedIn k field.2) : ComposedIn (k + 1) (ofFields fields) := by
  rw [ofFields_eq]
  refine ⟨.object (by simpa using hne) ?_ ?_, ?_⟩
  · intro member hmem
    obtain ⟨field, -, rfl⟩ := List.mem_map.mp hmem
    exact ⟨_, rfl⟩
  · intro member hmem
    obtain ⟨field, hfield, rfl⟩ := List.mem_map.mp hmem
    exact (hvalues field hfield).composed
  · rw [depth, Nat.add_comm]
    refine Nat.add_le_add_right (depthOfMembers_le fun member hmem => ?_) 1
    obtain ⟨field, hfield, rfl⟩ := List.mem_map.mp hmem
    exact (hvalues field hfield).depth_le

end ComposedIn

/-- A record is read where all its values are. -/
theorem ReadsFront.ofFields {fields : List (String × Json)} (hne : fields ≠ [])
    (hvalues : ∀ field ∈ fields, ReadsFront field.2) : ReadsFront (ofFields fields) := by
  rw [ofFields_eq]
  refine readsFront_object (by simpa using hne) ?_ ?_
  · exact List.forall_mem_map.mpr fun field _ => ⟨_, rfl⟩
  · exact List.forall_mem_map.mpr hvalues

theorem readsFront_ofText (text : String) : ReadsFront (ofText text) :=
  readsFront_string text.toList

theorem readsFront_ofNat (count : Nat) : ReadsFront (ofNat count) :=
  readsFront_number (Numeral.wellFormed_ofNat count)

/-! ### What is written is what is asked for -/

@[simp] theorem bodyText?_escape (text : String) : bodyText? (escape text.toList) = some text := by
  rw [bodyText?, unescape?_escape, Option.map_some, String.ofList_toList]

@[simp] theorem text?_ofText (text : String) : text? (ofText text) = some text :=
  bodyText?_escape text

@[simp] theorem name?_ofText (text : String) : name? (ofText text) = some text :=
  bodyText?_escape text

theorem count?_ofNat {count : Nat} (hcount : count < 2 ^ 64) :
    count? (ofNat count) = some count :=
  Numeral.count?_ofNat hcount

/-- What is written one by one is read back one by one. -/
theorem mapM_map_eq_some {α β : Type} {write : α → β} {read : β → Option α} {values : List α}
    (h : ∀ value ∈ values, read (write value) = some value) :
    (values.map write).mapM read = some values := by
  induction values with
  | nil => rfl
  | cons value more ih =>
      obtain ⟨hvalue, hmore⟩ := List.forall_mem_cons.mp h
      rw [List.map_cons, List.mapM_cons, hvalue, ih hmore]
      rfl

/-- A list is read back where each of its items is. -/
theorem list?_map {α : Type} {write : α → Json} {read : Json → Option α} {values : List α}
    (h : ∀ value ∈ values, read (write value) = some value) :
    list? read (.array (values.map write)) = some values :=
  mapM_map_eq_some h

@[simp] theorem list?_ofTexts (texts : List String) : list? text? (ofTexts texts) = some texts :=
  list?_map fun text _ => text?_ofText text

theorem mapM_namedMember? (fields : List (String × Json)) :
    (fields.map writtenMember).mapM namedMember? = some fields :=
  mapM_map_eq_some fun field _ => by
    rw [namedMember?, writtenMember, bodyText?_escape]
    rfl

/-- The fields of a record are found again under their names. -/
theorem fields?_ofFields {names : List String} {fields : List (String × Json)}
    (hnames : fields.map (·.1) = names) (hnodup : names.Nodup) :
    fields? names (ofFields fields) = some fields := by
  have hknown : fields.filter (names.contains ·.1) = fields := by
    refine List.filter_eq_self.mpr fun field hfield => ?_
    rw [List.contains_iff_mem, ← hnames]
    exact List.mem_map_of_mem hfield
  rw [ofFields_eq]
  unfold fields?
  simp only [mapM_namedMember?, Option.bind_eq_bind, Option.bind_some]
  rw [hknown, hnames, if_pos hnodup]

section

variable {α : Type} {key name : String} {value : Json} {fields : List (String × Json)}
variable {read : Json → Option α}

@[simp] theorem required_self : required ((name, value) :: fields) name read = read value := by
  simp [required, Keyed.find?]

@[simp] theorem required_of_ne (h : key ≠ name) :
    required ((key, value) :: fields) name read = required fields name read := by
  simp [required, Keyed.find?, h]

end

/-! ### Floats -/

/-- What is written for a float is read, as `null` or as a number. -/
theorem readsFront_ofFloat (x : Float) : ReadsFront (ofFloat x) := by
  rw [ofFloat]
  cases hwritten : Numeral.ofFloat? x with
  | none => exact Composed.null.readsFront
  | some n => exact readsFront_number (Numeral.wellFormed_ofFloat? hwritten)

/-- What denotes a float was written for a finite one. -/
theorem isFinite_of_float? {x y : Float} (h : (ofFloat x).float? = some y) : x.isFinite = true := by
  by_contra hfinite
  have hwritten : Numeral.ofFloat? x = none := by
    rw [Numeral.ofFloat?, if_pos (by simpa using hfinite)]
  rw [ofFloat, hwritten] at h
  cases h

/-- A float that is printed so that a float is read, though not always the same one. -/
structure Readable (x : Float) : Prop where
  /-- The document that is written for the float denotes one. -/
  denotes : (ofFloat x).float?.isSome = true

/-- The float that is read from what is written for a float. -/
def reread (x : Float) : Float :=
  (ofFloat x).float?.getD x

namespace Readable

variable {x : Float}

theorem float? (hx : Readable x) : (ofFloat x).float? = some (reread x) := by
  obtain ⟨y, hy⟩ := Option.isSome_iff_exists.mp hx.denotes
  rw [reread, hy, Option.getD_some]

theorem composedIn (hx : Readable x) (k : Nat) : ComposedIn k (ofFloat x) := by
  have hdenotes := hx.denotes
  cases hwritten : Numeral.ofFloat? x with
  | none =>
      have hdocument : ofFloat x = .null := by rw [ofFloat, hwritten]
      rw [hdocument] at hdenotes
      cases hdenotes
  | some n =>
      have hdocument : ofFloat x = .number n := by rw [ofFloat, hwritten]
      rw [hdocument] at hdenotes ⊢
      exact ⟨.number (Numeral.wellFormed_ofFloat? hwritten) hdenotes, Nat.zero_le k⟩

end Readable

/-- A float that is printed so that it is read back. -/
structure ReadsBack (x : Float) : Prop where
  /-- The float is what the text that is written for it denotes. -/
  read : (read? (ofFloat x).render).bind float? = some x

instance (x : Float) : Decidable (ReadsBack x) :=
  decidable_of_iff ((read? (ofFloat x).render).bind float? = some x) ⟨.mk, ReadsBack.read⟩

/-- Not every float is read back: the digits of this one are scaled to its neighbour. -/
example : ¬ ReadsBack 3.7416573867739413 := by decide +kernel

namespace ReadsBack

variable {x : Float}

/-- A float that is read back is written as a numeral that denotes it. -/
theorem exists_numeral (hx : ReadsBack x) :
    ∃ n : Numeral, n.WellFormed ∧ n.float? = some x ∧ ofFloat x = .number n := by
  have hread := hx.read
  cases hwritten : Numeral.ofFloat? x with
  | none =>
      have hdocument : ofFloat x = .null := by rw [ofFloat, hwritten]
      rw [hdocument, Composed.null.read?_render] at hread
      cases hread
  | some n =>
      have hgrammar := Numeral.wellFormed_ofFloat? hwritten
      have hdocument : ofFloat x = .number n := by rw [ofFloat, hwritten]
      rw [hdocument, (readsFront_number hgrammar).read?_render] at hread
      exact ⟨n, hgrammar, hread, hdocument⟩

theorem float? (hx : ReadsBack x) : (ofFloat x).float? = some x := by
  obtain ⟨n, -, hdenotes, hwritten⟩ := hx.exists_numeral
  rw [hwritten]
  exact hdenotes

theorem readable (hx : ReadsBack x) : Readable x :=
  ⟨by rw [hx.float?]; rfl⟩

theorem reread_eq (hx : ReadsBack x) : reread x = x := by
  rw [reread, hx.float?, Option.getD_some]

theorem composedIn (hx : ReadsBack x) (k : Nat) : ComposedIn k (ofFloat x) :=
  hx.readable.composedIn k

end ReadsBack

end MarketSignals.Json
