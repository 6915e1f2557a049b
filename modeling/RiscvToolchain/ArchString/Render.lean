import RiscvToolchain.ArchString.Versions

/- The arch attribute of an ELF file, as the assembler prints it, and that
   `parseMarch` reads it back (`parseMarch_render`): every extension with its
   version, the parts joined by `_`. The parser reads a single letter's version
   forwards and a multi-letter name's version backwards from the end of the part,
   so a name may itself hold digits and the letter `p`; what it may not do is end
   in a digit. -/
namespace ArchString
open Python

/-- The names the attribute may hold: a supported letter, or a multi-letter name that does
    not end in a digit. -/
def ValidName (name : Str) : Prop :=
  (∃ c ∈ supporttedExts, name = [c]) ∨
  ((∃ c ∈ mcExtPrefix, name.head? = some c) ∧ 2 ≤ name.length ∧
    (∀ c ∈ name.getLast?, isdigit c = false) ∧ '_' ∉ name ∧
    ¬ "rv32g".toList <:+: name ∧ ¬ "rv64g".toList <:+: name)

structure Ext where
  name : Str
  major : Nat
  minor : Nat
  valid : ValidName name

/-- `name` + major + `p` + minor. -/
def renderVersion (name : Str) (major minor : Nat) : Str := name ++ (str major ++ 'p' :: str minor)

def Ext.render (e : Ext) : Str := renderVersion e.name e.major e.minor

def Ext.entry (e : Ext) : Str × (Nat × Nat) := (e.name, (e.major, e.minor))

inductive Base where
  | rv64i
  | rv32i
  | rv32e

def Base.isa : Base → Str
  | .rv64i => "rv64".toList
  | .rv32i | .rv32e => "rv32".toList

def Base.letter : Base → Char
  | .rv64i | .rv32i => 'i'
  | .rv32e => 'e'

/-- The attribute string: the base with its version, then the extensions. -/
def render (b : Base) (major minor : Nat) (es : List Ext) : Str :=
  join ['_'] ((b.isa ++ renderVersion [b.letter] major minor) :: es.map Ext.render)

/-! The parsers on a rendered extension. -/

theorem parseVersion_render (a t : Str) (c : Char) (major minor : Nat)
    (ht : ∀ x ∈ t.head?, isdigit x = false) :
    parseVersion (a ++ (renderVersion [c] major minor ++ t)) a.length =
      .ok (a.length + (renderVersion [c] major minor).length, [c], major, minor) := by
  obtain ⟨rest, hrest⟩ : ∃ rest, rest = str major ++ 'p' :: (str minor ++ t) := ⟨_, rfl⟩
  have hs : a ++ (renderVersion [c] major minor ++ t) = a ++ c :: rest := by
    rw [hrest]
    simp [renderVersion]
  have hM : ∀ x ∈ str major, isdigit x = true := fun x hx => isdigit_of_mem_str hx
  have hm : ∀ x ∈ str minor, isdigit x = true := fun x hx => isdigit_of_mem_str hx
  have hp : ∀ x ∈ ('p' :: (str minor ++ t)).head?, isdigit x = false := by
    intro x hx
    cases hx
    decide
  have hdigits : digits rest = str major := by rw [hrest, digits_append hM hp]
  have hafter : afterDigits rest = 'p' :: (str minor ++ t) := by
    rw [hrest, afterDigits_append hM hp]
  have hlen : a.length + (renderVersion [c] major minor).length =
      a.length + 1 + (str major).length + 1 + (str minor).length := by
    simp [renderVersion]
    omega
  rw [hs, parseVersion_digits a rest c (by rw [hdigits]; exact str_ne_nil major), hdigits, hafter,
    List.tail_cons, digits_append hm ht, hlen]
  simp only [toInt, int_str]
  rfl

theorem not_mem_renderVersion {name : Str} {c : Char} (major minor : Nat) (hn : c ∉ name)
    (hp : c ≠ 'p') (hd : isdigit c = false) : c ∉ renderVersion name major minor := by
  have hs : ∀ n, c ∉ str n := by
    intro n h
    rw [isdigit_of_mem_str h] at hd
    cases hd
  simp [renderVersion, hn, hs, hp]

theorem parseMcExt_render (a t : Str) {c : Char} (l : Str) (major minor : Nat) (hc : c ∈ mcExtPrefix)
    (hlast : ∀ x ∈ (c :: l).getLast?, isdigit x = false) (hsep : '_' ∉ c :: l)
    (ht : t = [] ∨ ∃ u, t = '_' :: u) :
    parseMcExt (a ++ (renderVersion (c :: l) major minor ++ t)) a.length =
      .ok (a.length + (renderVersion (c :: l) major minor).length, c :: l, major, minor) := by
  obtain ⟨hd, hp, -⟩ := mcExtPrefix_spec hc
  have hM : ∀ x ∈ str major, isdigit x = true := fun x hx => isdigit_of_mem_str hx
  have hm : ∀ x ∈ str minor, isdigit x = true := fun x hx => isdigit_of_mem_str hx
  have hsep' := not_mem_renderVersion major minor hsep (by decide) (by decide)
  -- the minor stands after the `p`, the major before it
  have hversion : renderVersion (c :: l) major minor = (c :: l ++ str major ++ ['p']) ++ str minor := by
    simp [renderVersion]
  have hnotp : ∀ x ∈ (c :: l ++ str major ++ ['p']).getLast?, isdigit x = false := by
    intro x hx
    rw [List.getLast?_concat] at hx
    cases hx
    decide
  have htrail : trailingDigits (renderVersion (c :: l) major minor) = str minor := by
    rw [hversion, trailingDigits_append hm hnotp]
  have hbefore : beforeDigits (renderVersion (c :: l) major minor) = (c :: l ++ str major) ++ ['p'] := by
    rw [hversion, beforeDigits_append hm hnotp]
  have hne : trailingDigits (renderVersion (c :: l) major minor) ≠ [] := by
    rw [htrail]
    exact str_ne_nil minor
  have hparse := parseMcExt_digits a t (l := l ++ (str major ++ 'p' :: str minor)) hd hp hsep' ht hne
    hbefore (by decide)
  rw [show c :: (l ++ (str major ++ 'p' :: str minor)) = renderVersion (c :: l) major minor from rfl,
    htrail, trailingDigits_append hM hlast, beforeDigits_append hM hlast] at hparse
  rw [hparse]
  simp only [toInt, int_str]
  rfl

/-! The loop. -/

/-- What follows the base in the attribute. -/
def renderTail (es : List Ext) : Str := es.flatMap (fun e => '_' :: e.render)

theorem render_eq (b : Base) (major minor : Nat) (es : List Ext) :
    render b major minor es =
      b.isa ++ (renderVersion [b.letter] major minor ++ renderTail es) := by
  have h : ∀ w : Str, join ['_'] (w :: es.map Ext.render) = w ++ renderTail es := by
    induction es with
    | nil => intro w; simp [renderTail]
    | cons e es ih =>
      intro w
      rw [List.map_cons, join_cons_cons, ih]
      simp [renderTail]
  rw [render, h, List.append_assoc]

theorem renderTail_cases (es : List Ext) : renderTail es = [] ∨ ∃ u, renderTail es = '_' :: u := by
  cases es with
  | nil => exact Or.inl rfl
  | cons e es => exact Or.inr ⟨e.render ++ renderTail es, rfl⟩

theorem renderVersion_head (name : Str) (major minor : Nat) (hne : name ≠ []) :
    (renderVersion name major minor).head? = name.head? := by
  cases name with
  | nil => exact absurd rfl hne
  | cons c n => rfl

theorem not_digit_head {t : Str} (ht : t = [] ∨ ∃ u, t = '_' :: u) :
    ∀ x ∈ t.head?, isdigit x = false := by
  intro x hx
  rcases ht with rfl | ⟨u, rfl⟩
  · cases hx
  · obtain rfl : '_' = x := by simpa using hx
    decide

/-- One pass of the loop over a rendered letter. -/
theorem parseExts_letter (a t : Str) (c : Char) (hc : c ∈ supporttedExts) (major minor : Nat)
    (ht : t = [] ∨ ∃ u, t = '_' :: u) (fuel : Nat) (exts : Exts) :
    parseExts (a ++ (renderVersion [c] major minor ++ t)) (fuel + 1) a.length exts =
      parseExts (a ++ (renderVersion [c] major minor ++ t)) fuel
        (a.length + (renderVersion [c] major minor).length) (exts.set [c] (major, minor)) := by
  have hget : (a ++ (renderVersion [c] major minor ++ t))[a.length]? = some c := by
    rw [List.getElem?_append_right (Nat.le_refl _)]
    simp [renderVersion]
  rw [parseExts, hget]
  simp only [hc, if_true]
  rw [parseVersion_render a t c major minor (not_digit_head ht)]
  rfl

theorem Ext.name_ne_nil (e : Ext) : e.name ≠ [] := by
  intro hnil
  rcases e.valid with ⟨c, -, hname⟩ | ⟨-, hlen, -⟩
  · rw [hnil] at hname
    cases hname
  · rw [hnil] at hlen
    exact absurd hlen (by decide)

/-- One pass of the loop over a rendered extension. -/
theorem parseExts_ext (a t : Str) (e : Ext) (ht : t = [] ∨ ∃ u, t = '_' :: u) (fuel : Nat)
    (exts : Exts) :
    parseExts (a ++ (e.render ++ t)) (fuel + 1) a.length exts =
      parseExts (a ++ (e.render ++ t)) fuel (a.length + e.render.length)
        (exts.set e.name (e.major, e.minor)) := by
  rcases e.valid with ⟨c, hc, hname⟩ | ⟨⟨c, hc, hhead⟩, -, hlast, hsep, -, -⟩
  · rw [Ext.render, hname]
    exact parseExts_letter a t c hc e.major e.minor ht fuel exts
  · have hget : (a ++ (e.render ++ t))[a.length]? = some c := by
      rw [List.getElem?_append_right (Nat.le_refl _), Nat.sub_self, ← List.head?_eq_getElem?,
        List.head?_append, Ext.render, renderVersion_head _ _ _ e.name_ne_nil, hhead]
      rfl
    have hsupp : c ∉ supporttedExts := (mcExtPrefix_spec hc).2.2
    rw [parseExts, hget]
    simp only [hsupp, if_false, hc, if_true]
    obtain ⟨l, hl⟩ : ∃ l, e.name = c :: l := ⟨_, List.eq_cons_of_mem_head? hhead⟩
    rw [hl] at hlast hsep
    rw [Ext.render, hl, parseMcExt_render a t l e.major e.minor hc hlast hsep ht]
    rfl

/-- From any point of a string that ends in `text`, the loop makes these assignments. -/
def Reads (text : Str) (es : List (Str × (Nat × Nat))) : Prop :=
  ∀ (a : Str) (fuel : Nat) (exts : Exts), text.length ≤ fuel →
    parseExts (a ++ text) fuel a.length exts = .ok (exts.assign es)

theorem reads_nil : Reads [] [] := by
  intro a fuel exts _
  cases fuel <;> simp [parseExts]

/-- A piece that one pass of the loop reads. -/
theorem Reads.cons {piece text name : Str} {v : Nat × Nat} {es : List (Str × (Nat × Nat))}
    (hne : piece ≠ [])
    (hpass : ∀ (a : Str) (fuel : Nat) (exts : Exts),
      parseExts (a ++ (piece ++ text)) (fuel + 1) a.length exts =
        parseExts (a ++ (piece ++ text)) fuel (a.length + piece.length) (exts.set name v))
    (h : Reads text es) : Reads (piece ++ text) ((name, v) :: es) := by
  intro a fuel exts hfuel
  have hpos := List.length_pos_iff.mpr hne
  rw [List.length_append] at hfuel
  obtain ⟨n, rfl⟩ : ∃ n, fuel = n + 1 := ⟨fuel - 1, by omega⟩
  rw [hpass, ← List.append_assoc, ← List.length_append]
  exact h (a ++ piece) n _ (by omega)

/-- A separator sets nothing. -/
theorem Reads.sep {text : Str} {es : List (Str × (Nat × Nat))} (h : Reads text es) :
    Reads ('_' :: text) es := by
  intro a fuel exts hfuel
  rw [List.length_cons] at hfuel
  obtain ⟨n, rfl⟩ : ∃ n, fuel = n + 1 := ⟨fuel - 1, by omega⟩
  have hget : (a ++ '_' :: text)[a.length]? = some '_' := by simp
  have hstring : a ++ '_' :: text = (a ++ ['_']) ++ text := by simp
  have hindex : a.length + 1 = (a ++ ['_']).length := by simp
  rw [parseExts, hget]
  simp only [show ('_' : Char) ∉ supporttedExts by decide, if_false,
    show ('_' : Char) ∉ mcExtPrefix by decide, if_true]
  rw [hstring, hindex]
  exact h (a ++ ['_']) n exts (by omega)

theorem length_baseIsas : ∀ w ∈ baseIsas, w.length = 5 := by decide

/-- A base, and after it what the loop reads; nothing in it is the shorthand. -/
theorem parseMarch_of_reads {base body : Str} {b : Char} {es : List (Str × (Nat × Nat))}
    (hisa : base ++ [b] ∈ baseIsas) (hG : expandG (base ++ b :: body) = base ++ b :: body)
    (h : Reads (b :: body) es) :
    parseMarch (base ++ b :: body) = .ok (some (Dict.empty.assign es)) := by
  have hlen : base.length = 4 := by
    have hfive := length_baseIsas _ hisa
    rw [List.length_append, List.length_singleton] at hfive
    omega
  have htake : (base ++ b :: body).take 5 = base ++ [b] := by
    rw [List.take_append, hlen, List.take_of_length_le (by omega)]
    rfl
  have hlong : ¬ (base ++ b :: body).length < 5 := by
    rw [List.length_append, List.length_cons]
    omega
  have hloop := h [] _ Dict.empty (Nat.le_refl _)
  rw [List.length_nil, List.nil_append] at hloop
  rw [parseMarch, if_neg hlong]
  simp only [hG, htake, hisa, if_true, List.drop_left' hlen]
  rw [hloop]
  rfl

theorem renderVersion_ne_nil {name : Str} (major minor : Nat) (h : name ≠ []) :
    renderVersion name major minor ≠ [] :=
  List.append_ne_nil_of_left_ne_nil h _

/-- The rendered extensions, each after its separator. -/
theorem reads_renderTail (es : List Ext) : Reads (renderTail es) (es.map Ext.entry) := by
  induction es with
  | nil => exact reads_nil
  | cons e es ih =>
    have htail : renderTail (e :: es) = '_' :: (e.render ++ renderTail es) := by
      simp [renderTail]
    rw [htail, List.map_cons]
    refine (Reads.cons (renderVersion_ne_nil _ _ e.name_ne_nil) ?_ ih).sep
    exact fun a fuel exts => parseExts_ext a (renderTail es) e (renderTail_cases es) fuel exts

/-! The shorthand `g` never occurs in a rendered attribute. -/

theorem not_infix_renderVersion {o name : Str} {x : Char} (major minor : Nat) (hx : x ≠ 'p')
    (hd : isdigit x = false) (h : ¬ o ++ [x] <:+: name) :
    ¬ o ++ [x] <:+: renderVersion name major minor := by
  intro hin
  refine h (infix_of_append ?_ hin)
  exact @not_mem_renderVersion [] x major minor (by simp) hx hd

theorem not_infix_of_length {o s : Str} (h : s.length < o.length) : ¬ o <:+: s :=
  fun hin => absurd hin.length_le (by omega)

/-- A shorthand occurs in no part of the attribute, hence not in the attribute. -/
theorem not_infix_render (o : Str) (b : Base) (major minor : Nat) (es : List Ext)
    (hsep : '_' ∉ o)
    (hbase : ¬ o ++ ['g'] <:+: b.isa ++ [b.letter])
    (hes : ∀ e ∈ es, ¬ o ++ ['g'] <:+: e.name) :
    ¬ o ++ ['g'] <:+: render b major minor es := by
  intro hin
  obtain ⟨w, hw, hinw⟩ := infix_join (by simp [hsep]) (by simp) hin
  rcases List.mem_cons.mp hw with rfl | hw
  · have hb : b.isa ++ renderVersion [b.letter] major minor =
        renderVersion (b.isa ++ [b.letter]) major minor := by simp [renderVersion]
    rw [hb] at hinw
    exact not_infix_renderVersion major minor (by decide) (by decide) hbase hinw
  · obtain ⟨e, he, rfl⟩ := List.mem_map.mp hw
    exact not_infix_renderVersion e.major e.minor (by decide) (by decide) (hes e he) hinw

theorem Ext.not_infix (e : Ext) {o : Str} (ho : o ∈ ["rv32g".toList, "rv64g".toList]) :
    ¬ o <:+: e.name := by
  rcases e.valid with ⟨c, -, hname⟩ | ⟨-, -, -, -, h32, h64⟩
  · rw [hname]
    refine not_infix_of_length ?_
    have hlen : ∀ o ∈ ["rv32g".toList, "rv64g".toList], 1 < o.length := by decide
    simpa using hlen o ho
  · rcases List.mem_cons.mp ho with rfl | ho
    · exact h32
    · obtain rfl := List.mem_singleton.mp ho
      exact h64

theorem expandG_render (b : Base) (major minor : Nat) (es : List Ext) :
    expandG (render b major minor es) = render b major minor es := by
  have h64 : ¬ "rv64g".toList <:+: render b major minor es := by
    refine not_infix_render "rv64".toList b major minor es (by decide) ?_ ?_
    · cases b <;> decide
    · exact fun e _ => e.not_infix (by decide)
  have h32 : ¬ "rv32g".toList <:+: render b major minor es := by
    refine not_infix_render "rv32".toList b major minor es (by decide) ?_ ?_
    · cases b <;> decide
    · exact fun e _ => e.not_infix (by decide)
  rw [expandG, replace_eq_self h64, replace_eq_self h32]

/-- The dictionary of the base letter and the extensions. -/
def entries (b : Base) (major minor : Nat) (es : List Ext) : List (Str × (Nat × Nat)) :=
  ([b.letter], (major, minor)) :: es.map Ext.entry

theorem parseMarch_eq_assign (b : Base) (major minor : Nat) (es : List Ext) :
    parseMarch (render b major minor es) =
      .ok (some (Dict.empty.assign (entries b major minor es))) := by
  have hsupp : b.letter ∈ supporttedExts := by cases b <;> decide
  have hbase : b.isa ++ [b.letter] ∈ baseIsas := by cases b <;> decide
  have hreads : Reads (renderVersion [b.letter] major minor ++ renderTail es)
      (entries b major minor es) := by
    refine Reads.cons (renderVersion_ne_nil _ _ (List.cons_ne_nil _ _)) ?_ (reads_renderTail es)
    exact fun a fuel exts => parseExts_letter a (renderTail es) b.letter hsupp major minor
      (renderTail_cases es) fuel exts
  have hG := expandG_render b major minor es
  rw [render_eq] at hG ⊢
  exact parseMarch_of_reads hbase hG hreads

/-- `parse_march` inverts the printer: each name has the version of its last occurrence, and
    the keys stand in the order of the first. -/
theorem parseMarch_render (b : Base) (major minor : Nat) (es : List Ext) :
    ∃ d, parseMarch (render b major minor es) = .ok (some d) ∧
      d.keys = ((entries b major minor es).map Prod.fst).eraseDups ∧
      ∀ name, d.get name = (entries b major minor es).reverse.lookup name := by
  refine ⟨Dict.empty.assign (entries b major minor es), parseMarch_eq_assign b major minor es,
    ?_, ?_⟩
  · rw [Dict.keys_assign]
    simp [Dict.empty, Dict.keys]
    congr 1
    exact lawful_beq_subsingleton _ _
  · intro name
    rw [Dict.get_assign]
    simp [Dict.empty, Dict.get]
    congr 1
    exact lawful_beq_subsingleton _ _

end ArchString
