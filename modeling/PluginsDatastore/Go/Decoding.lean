import PluginsDatastore.Go.CheckValid
import PluginsDatastore.Go.Denotation

/-!
# What the decoder returns

`Unmarshal` returns what the derivation of the text says, and an error for a text without
one: it is never out of step with the scanner.

`At` says where the decoder is: what it has read, the step and the stack of its scanner
and what is left to read. By induction on the derivation, each of its parts is decoded to
what it denotes, and leaves the decoder at the end of the part (`decodesPart_of_spells`).
After a literal that is one byte too far, which has been undone. What counts is that the
scanner goes on as it would from the end of the literal (`AfterValue`).
-/

namespace PluginsDatastore

open Words Computability Scanner Decode

/-! ### Running the decoder -/

namespace Decode

variable {α β : Type} {d d' : DecodeState} {x : α}

theorem bind_ok {f : Decode α} (h : f d = .ok (x, d')) (g : α → Decode β) :
    (f >>= g) d = g x d' := by
  change (f d >>= fun p => g p.1 p.2) = g x d'
  rw [h]
  rfl

theorem ite_bind (p : Prop) [Decidable p] (f f' : Decode α) (g : α → Decode β) :
    (if p then f >>= g else f' >>= g) = (if p then f else f') >>= g := by
  split_ifs
  · rfl
  · rfl

theorem get_bind (g : DecodeState → Decode β) : (get >>= g : Decode β) d = g d d := rfl

/-- The text and the error that has been saved are left as they are. -/
theorem scanWhile_keeps {op op' : ScanCode} (h : scanWhile op d = .ok (op', d')) :
    d'.data = d.data ∧ d'.savedError = d.savedError := by
  rw [scanWhile] at h
  injection h with h
  obtain ⟨-, rfl⟩ := Prod.mk.inj h
  exact ⟨rfl, rfl⟩

@[inherit_doc scanWhile_keeps]
theorem undo_keeps {op : ScanCode} (h : undo op d = .ok ((), d')) :
    d'.data = d.data ∧ d'.savedError = d.savedError := by
  rw [undo] at h
  split at h
  · cases h
  · injection h with h
    obtain ⟨-, rfl⟩ := Prod.mk.inj h
    exact ⟨rfl, rfl⟩

end Decode

/-- **Where the decoder is**: it has read `pre`, its scanner is in a step and has a stack,
and `r` is left to read. -/
structure At (d : DecodeState) (pre : GoString) (q : Step) (ps : List ParseState) (r : GoString) :
    Prop where
  data_eq : d.data = pre ++ r
  off_eq : d.off = pre.length
  scan_eq : ∃ s : Scanner, d.scan = s.goto q ps

variable {d d' d₁ : DecodeState} {pre u w r : GoString} {q q' : Step} {ps ps' : List ParseState}
  {c : UInt8} {op op' : ScanCode}

theorem At.drop_off (h : At d pre q ps r) : d.data.drop d.off = r := by
  rw [h.data_eq, h.off_eq, List.drop_left]

/-- Bytes that are answered by the code that is waited for. -/
theorem scanWhileLoop_append {s : Scanner} {len off : ℕ}
    (hu : ∀ b ∈ u, (s.goto q ps).next b = (op, s.goto q ps)) :
    scanWhileLoop op len (u ++ r) off (s.goto q ps) =
      scanWhileLoop op len r (off + u.length) (s.goto q ps) := by
  induction u generalizing off with
  | nil => rfl
  | cons b u ih =>
    rw [List.forall_mem_cons] at hu
    rw [List.cons_append, scanWhileLoop, hu.1]
    simp only [ne_eq, not_true_eq_false, if_false]
    rw [ih hu.2, List.length_cons, Nat.add_right_comm, Nat.add_assoc]

/-- **One call of `scanWhile`** passes over the bytes that are answered by its code and
reads one more. -/
theorem At.scanWhile (h : At d pre q ps (u ++ c :: r))
    (hu : ∀ (s : Scanner), ∀ b ∈ u, (s.goto q ps).next b = (op, s.goto q ps))
    (hc : ∀ s : Scanner, (s.goto q ps).next c = (op', s.goto q' ps')) (hop : op' ≠ op) :
    ∃ d', scanWhile op d = .ok (op', d') ∧ At d' (pre ++ u ++ [c]) q' ps' r := by
  obtain ⟨s, hs⟩ := h.scan_eq
  have hloop : scanWhileLoop op d.data.length (d.data.drop d.off) d.off d.scan =
      (op', d.off + u.length + 1, s.goto q' ps') := by
    rw [h.drop_off, hs, scanWhileLoop_append (hu s), scanWhileLoop, hc s]
    exact if_pos hop
  refine ⟨{ d with off := d.off + u.length + 1, scan := s.goto q' ps' }, ?_, ?_, ?_, s, rfl⟩
  · rw [Decode.scanWhile, hloop]
  · simp [h.data_eq]
  · simp [h.off_eq, Nat.add_assoc]

/-! ### White space, and one byte undone -/

/-- After the next white space the decoder reads a byte that is answered by `op`. -/
def ReadsNext (d : DecodeState) (pre : GoString) (op : ScanCode) (q : Step) (ps : List ParseState)
    (r : GoString) : Prop :=
  ∃ d', scanWhile .scanSkipSpace d = .ok (op, d') ∧ At d' pre q ps r

/-- A scanner whose last byte has been undone. -/
def undone (s : Scanner) (op : ScanCode) (q : Step) : Scanner :=
  { s with redoCode := op, redoState := q, step := .redo, redo := true }

theorem undo_goto (s : Scanner) : (s.goto q ps).undo op = some (undone (s.goto q ps) op q) := rfl

/-- The byte that is read again is answered as before, and leads to the same. -/
theorem next_undone (s : Scanner) :
    (undone (s.goto q ps) op q).next c =
      (op, ({ s with redoCode := op, redoState := q } : Scanner).goto q ps) := rfl

/-- The byte just read can be read again. -/
theorem At.undo (h : At d (pre ++ [c]) q ps r) (hop : op ≠ .scanSkipSpace) :
    ∃ d', Decode.undo op d = .ok ((), d') ∧ ReadsNext d' (pre ++ [c]) op q ps r := by
  obtain ⟨s, hs⟩ := h.scan_eq
  have hoff : d.off - 1 = pre.length := by simp [h.off_eq]
  have hdata : d.data = pre ++ c :: r := by simp [h.data_eq]
  have hloop : scanWhileLoop .scanSkipSpace d.data.length (d.data.drop (d.off - 1)) (d.off - 1)
      (undone (s.goto q ps) op q) =
      (op, d.off - 1 + 1, ({ s with redoCode := op, redoState := q } : Scanner).goto q ps) := by
    rw [hoff, hdata, List.drop_left, scanWhileLoop, next_undone]
    exact if_pos hop
  refine ⟨{ d with off := d.off - 1, scan := undone (s.goto q ps) op q }, ?_, ?_⟩
  · rw [Decode.undo, hs, undo_goto]
  · refine ⟨{ d with
      off := d.off - 1 + 1
      scan := ({ s with redoCode := op, redoState := q } : Scanner).goto q ps }, ?_,
      h.data_eq, ?_, _, rfl⟩
    · rw [Decode.scanWhile, hloop]
    · simp [hoff]

/-- A value begins with what is left: the byte it begins with is read after white space. -/
def Begins (d : DecodeState) (pre : GoString) (ps : List ParseState) (v : GoString) : Prop :=
  ∃ c l op q ps', v = c :: l ∧
    (∀ s : Scanner, (s.goto .beginValue ps).next c = (op, s.goto q ps')) ∧
    op ≠ .scanSkipSpace ∧ ReadsNext d (pre ++ [c]) op q ps' l

theorem Begins.readsNext (h : Begins d pre ps (c :: w))
    (hc : ∀ s : Scanner, (s.goto .beginValue ps).next c = (op, s.goto q ps')) :
    ReadsNext d (pre ++ [c]) op q ps' w := by
  obtain ⟨c', l, op', q', ps'', heq, hc', -, hreads⟩ := h
  obtain ⟨rfl, rfl⟩ := List.cons.inj heq
  -- the byte is answered in one way only
  have hsame := (hc {}).symm.trans (hc' {})
  obtain ⟨rfl, hgoto⟩ := Prod.mk.inj hsame
  obtain rfl : q = q' := congrArg Scanner.step hgoto
  obtain rfl : ps' = ps'' := congrArg Scanner.parseState hgoto
  exact hreads

/-! ### The end of a literal -/

/-- The decoder is where it is after a value: the scanner goes on as from the end of the
value, be it that its last byte has been undone. -/
def AfterValue (d : DecodeState) (pre : GoString) (ps : List ParseState) (r : GoString) : Prop :=
  ∃ d₀, At d₀ pre .endValue ps r ∧ scanWhile .scanSkipSpace d = scanWhile .scanSkipSpace d₀

/-- After a value the decoder goes on with white space and one more byte. -/
theorem AfterValue.scanWhile {p : ParseState} (h : AfterValue d pre (p :: ps) (u ++ c :: r))
    (hu : u ∈ Json.ws)
    (hc : ∀ s : Scanner, (s.goto .endValue (p :: ps)).next c = (op, s.goto q ps'))
    (hop : op ≠ .scanSkipSpace) :
    ∃ d', Decode.scanWhile .scanSkipSpace d = .ok (op, d') ∧ At d' (pre ++ u ++ [c]) q ps' r := by
  obtain ⟨d₀, hat, heq⟩ := h
  obtain ⟨d', hd', hat'⟩ := hat.scanWhile
    (fun s b hb => stateEndValue_space s (by decide) (Json.mem_ws.mp hu b hb) p) hc hop
  exact ⟨d', heq.trans hd', hat'⟩

/-- The scanner with other values left over from the last undo. -/
def withRedo (s : Scanner) (op : ScanCode) (q : Step) : Scanner :=
  { s with redoCode := op, redoState := q }

/-- **The byte after a value** is answered in one way, whatever is left over from an undo:
it is no part of a literal, and leaves nothing to redo. -/
theorem next_endValue (ps : List ParseState) (c : UInt8) :
    ∃ (op : ScanCode) (f : Scanner → Scanner), op ≠ .scanContinue ∧
      ∀ s : Scanner, (s.goto .endValue ps).next c = (op, f s) ∧
      (f s).redo = false ∧ ∀ op' q', f (withRedo s op' q') = withRedo (f s) op' q' := by
  cases ps with
  | nil =>
    refine ⟨.scanEnd, fun s => ((s.goto .endTop []).stateEndTop c).2, by decide, fun s => ?_⟩
    refine ⟨rfl, ?_, fun op' q' => ?_⟩
    · unfold stateEndTop
      split_ifs
      · rfl
      · rfl
    · unfold stateEndTop
      split_ifs
      · rfl
      · rfl
  | cons p ps =>
    have herror : ∀ (context : GoString) (s : Scanner),
        ((s.goto .endValue (p :: ps)).error c context).2.redo = false ∧ ∀ op' q',
          (((withRedo s op' q').goto .endValue (p :: ps)).error c context).2 =
            withRedo ((s.goto .endValue (p :: ps)).error c context).2 op' q' :=
      fun _ _ => ⟨rfl, fun _ _ => rfl⟩
    by_cases hc : isSpace c
    · exact ⟨.scanSkipSpace, fun s => s.goto .endValue (p :: ps), by decide, fun s =>
        ⟨stateEndValue_space s (by decide) hc p, rfl, fun _ _ => rfl⟩⟩
    cases p with
    | parseObjectKey =>
      have hnext : ∀ s : Scanner, (s.goto .endValue (.parseObjectKey :: ps)).next c = _ := fun s =>
        stateEndValue_key s (by decide) hc
      split_ifs at hnext
      · exact ⟨_, _, by decide, fun s => ⟨hnext s, rfl, fun _ _ => rfl⟩⟩
      · exact ⟨.scanError, _, by decide, fun s => ⟨hnext s, herror _ s⟩⟩
    | parseObjectValue =>
      have hnext : ∀ s : Scanner, (s.goto .endValue (.parseObjectValue :: ps)).next c = _ :=
        fun s => stateEndValue_value s (by decide) hc
      split_ifs at hnext
      · exact ⟨_, _, by decide, fun s => ⟨hnext s, rfl, fun _ _ => rfl⟩⟩
      · exact ⟨_, fun s => s.close ps, by decide, fun s => ⟨hnext s, rfl, fun _ _ => rfl⟩⟩
      · exact ⟨.scanError, _, by decide, fun s => ⟨hnext s, herror _ s⟩⟩
    | parseArrayValue =>
      have hnext : ∀ s : Scanner, (s.goto .endValue (.parseArrayValue :: ps)).next c = _ := fun s =>
        stateEndValue_array s (by decide) hc
      split_ifs at hnext
      · exact ⟨_, _, by decide, fun s => ⟨hnext s, rfl, fun _ _ => rfl⟩⟩
      · exact ⟨_, fun s => s.close ps, by decide, fun s => ⟨hnext s, rfl, fun _ _ => rfl⟩⟩
      · exact ⟨.scanError, _, by decide, fun s => ⟨hnext s, herror _ s⟩⟩

/-- The bytes of a lexeme are passed over. -/
theorem scanWhileLoop_path (h : Path keeps q w q') (s : Scanner) (len off : ℕ) :
    scanWhileLoop .scanContinue len (w ++ r) off (s.goto q ps) =
      scanWhileLoop .scanContinue len r (off + w.length) (s.goto q' ps) := by
  induction h generalizing off with
  | nil q => rfl
  | cons hmove h ih =>
    rw [List.cons_append, scanWhileLoop, hmove]
    simp only [ne_eq, not_true_eq_false, if_false]
    rw [ih, List.length_cons, Nat.add_right_comm, Nat.add_assoc]

theorem scanWhileLoop_congr {s s' : Scanner} (h : s.next c = s'.next c) (len off : ℕ) :
    scanWhileLoop op len (c :: r) off s = scanWhileLoop op len (c :: r) off s' := by
  rw [scanWhileLoop, scanWhileLoop, h]

/-- The scanner that reads a byte again is the one that has read it. -/
theorem next_undone_self {s : Scanner} (hs : s.redo = false) :
    (undone s op s.step).next c = (op, withRedo s op s.step) := by
  rcases s with ⟨_, _, _, _, _, _, _, _⟩
  obtain rfl := hs
  rfl

/-- The end of the data leaves nothing to redo. -/
theorem redo_eof (s : Scanner) (ps : List ParseState) :
    (s.goto .endValue ps).eof.2.redo = false := by
  cases ps with
  | nil => rfl
  | cons p ps =>
    have hnext : (s.goto .endValue (p :: ps)).next ' '.toUInt8 =
        (.scanSkipSpace, s.goto .endValue (p :: ps)) :=
      stateEndValue_space s (by decide) (.inl rfl) p
    rw [eof, hnext]
    rfl

/-- **The rest of a literal** is passed over, and the byte after it undone. -/
theorem At.literal (h : At d (pre ++ [c]) q ps (w ++ r)) (hw : w ∈ lexemes q)
    (hr : Terminates r) :
    ∃ op d₂ d₃, Decode.scanWhile .scanContinue d = .ok (op, d₂) ∧
      Decode.undo op d₂ = .ok ((), d₃) ∧ d₃.off = (pre ++ c :: w).length ∧
      (r ≠ [] → AfterValue d₃ (pre ++ c :: w) ps r) := by
  obtain ⟨q', hq', hpath⟩ := hw
  obtain ⟨s, hs⟩ := h.scan_eq
  have hdata : d.data = (pre ++ c :: w) ++ r := by simp [h.data_eq]
  have hoff : d.off + w.length = (pre ++ c :: w).length := by
    simp [h.off_eq]
    omega
  have hloop : ∀ op, scanWhileLoop op d.data.length (d.data.drop d.off) d.off d.scan =
      scanWhileLoop op d.data.length (w ++ r) d.off (s.goto q ps) := by
    intro op
    rw [h.drop_off, hs]
  -- the loop ends in a scanner that can be undone
  have hundo : ∀ (op : ScanCode) (t : Scanner), t.redo = false →
      Decode.undo op { d with off := (pre ++ c :: w).length + 1, scan := t } =
        .ok ((), { d with off := (pre ++ c :: w).length, scan := undone t op t.step }) := by
    intro op t ht
    have hsome : t.undo op = some (undone t op t.step) := by
      rw [Scanner.undo, ht]
      rfl
    rw [Decode.undo, hsome]
    rfl
  cases r with
  | nil =>
    have hscan : scanWhileLoop .scanContinue d.data.length (d.data.drop d.off) d.off d.scan =
        ((s.goto .endValue ps).eof.1, (pre ++ c :: w).length + 1, (s.goto .endValue ps).eof.2) := by
      rw [hloop, scanWhileLoop_path hpath, scanWhileLoop, eof_of_ended hq', hdata, List.append_nil]
    refine ⟨_, _, _, ?_, hundo (s.goto .endValue ps).eof.1 _ (redo_eof s ps), rfl,
      fun hr => absurd rfl hr⟩
    rw [Decode.scanWhile, hscan]
  | cons b r =>
    obtain ⟨op, f, hop, hf⟩ := next_endValue ps b
    obtain ⟨hnext, hredo, hwith⟩ := hf s
    have hscan : scanWhileLoop .scanContinue d.data.length (d.data.drop d.off) d.off d.scan =
        (op, (pre ++ c :: w).length + 1, f s) := by
      rw [hloop, scanWhileLoop_path hpath, hoff,
        scanWhileLoop_congr ((next_of_ended hq' (hr b rfl)).trans rfl), scanWhileLoop, hnext]
      exact if_pos hop
    refine ⟨op, _, _, ?_, hundo op (f s) hredo, rfl, fun _ => ?_⟩
    · rw [Decode.scanWhile, hscan]
    · refine ⟨{ d with
        off := (pre ++ c :: w).length
        scan := (withRedo s op (f s).step).goto .endValue ps }, ⟨hdata, rfl, _, rfl⟩, ?_⟩
      have hsame : (undone (f s) op (f s).step).next b =
          ((withRedo s op (f s).step).goto .endValue ps).next b := by
        rw [(hf _).1, hwith]
        exact next_undone_self hredo
      have hdrop : d.data.drop (pre ++ c :: w).length = b :: r := by rw [hdata, List.drop_left]
      rw [Decode.scanWhile, Decode.scanWhile]
      simp only [hdrop, scanWhileLoop_congr hsame]

/-! ### Parts of a text -/

section

variable {F : Type} {parseFloat : GoString → Option F} {ns ns' : Json.Numbers} {x : Interface F}
  {f g : Decode (Interface F)} {t : Json.Tree}

/-- What is read on the way from one place to another: the text is the same, and the
numbers have been dealt with. -/
def Passes (parseFloat : GoString → Option F) (d : DecodeState) (ns : Json.Numbers)
    (d' : DecodeState) : Prop :=
  d'.data = d.data ∧ d'.savedError = d.savedError.or (firstRefused parseFloat ns)

theorem Passes.of_keeps (h : d'.data = d.data ∧ d'.savedError = d.savedError) :
    Passes parseFloat d [] d' :=
  ⟨h.1, h.2.trans Option.or_none.symm⟩

theorem Passes.trans (h : Passes parseFloat d ns d₁) (h' : Passes parseFloat d₁ ns' d') :
    Passes parseFloat d (ns ++ ns') d' := by
  refine ⟨h'.1.trans h.1, ?_⟩
  rw [h'.2, h.2, firstRefused_append, Option.or_assoc]

/-- **A part is decoded** to a value, and leaves the decoder at its end. After the value
of the whole text there is nothing to go on with. -/
def Decoded (parseFloat : GoString → Option F) (f : Decode (Interface F)) (d : DecodeState)
    (x : Interface F) (ns : Json.Numbers) (pre : GoString) (ps : List ParseState) (r : GoString) :
    Prop :=
  ∃ d', f d = .ok (x, d') ∧ Passes parseFloat d ns d' ∧ (ps ≠ [] → r ≠ [] → AfterValue d' pre ps r)

/-- A part after what has been read before it. -/
theorem Decoded.after (h : Passes parseFloat d ns d₁) (hf : f d = g d₁)
    (hg : Decoded parseFloat g d₁ x ns' pre ps r) :
    Decoded parseFloat f d x (ns ++ ns') pre ps r := by
  obtain ⟨d', hd', hpasses, hpending⟩ := hg
  exact ⟨d', hf.trans hd', h.trans hpasses, hpending⟩

/-- After a closing bracket the decoder is where it is after a value. -/
theorem At.afterValue (h : At d pre (if ps = [] then .endTop else .endValue) ps r) (hps : ps ≠ []) :
    AfterValue d pre ps r := by
  rw [if_neg hps] at h
  exact ⟨d, h, rfl⟩

theorem Decoded.pure (h : At d pre (if ps = [] then .endTop else .endValue) ps r) :
    Decoded parseFloat (pure x) d x [] pre ps r :=
  ⟨d, rfl, .of_keeps ⟨rfl, rfl⟩, fun hps _ => h.afterValue hps⟩

/-- What has been saved is of no matter to the scanner. -/
theorem AfterValue.saved (h : AfterValue d pre ps r) (e : Option UnmarshalTypeError) :
    AfterValue { d with savedError := e } pre ps r := by
  obtain ⟨d₀, ⟨hdata, hoff, hscan⟩, heq⟩ := h
  refine ⟨{ d₀ with savedError := e }, ⟨hdata, hoff, hscan⟩, ?_⟩
  have hmap : ∀ d : DecodeState, Decode.scanWhile .scanSkipSpace { d with savedError := e } =
      (Decode.scanWhile .scanSkipSpace d).map fun p => (p.1, { p.2 with savedError := e }) :=
    fun _ => rfl
  rw [hmap, hmap, heq]

/-- What the derivation of a value has to give: it is decoded to what it denotes. -/
def DecodesValue (parseFloat : GoString → Option F) (t : Json.Tree) (w : GoString)
    (ns : Json.Numbers) : Prop :=
  ∀ n d pre ps r, 2 * w.length ≤ n → Terminates r → Begins d pre ps (w ++ r) →
    Decoded parseFloat (valueInterface parseFloat n) d (denote parseFloat t)
      (ns.shift pre.length) (pre ++ w) ps r

theorem decodesValue_literal (hw : w ∈ literals) (heval : Evaluates parseFloat t w ns) :
    DecodesValue parseFloat t w ns := by
  intro n d pre ps r hn hr h
  obtain ⟨c, q, l, rfl, hc, hl⟩ := hw
  obtain ⟨n, rfl⟩ : ∃ m, n = m + 1 := ⟨n - 1, by rw [List.length_cons] at hn; omega⟩
  obtain ⟨d₁, hscan, hat⟩ := h.readsNext fun s => hc s ps
  obtain ⟨op, d₂, d₃, hcont, hundo, hoff, hpending⟩ := hat.literal hl hr
  have hkeeps : Passes parseFloat d [] d₃ :=
    (Passes.of_keeps (scanWhile_keeps hscan)).trans <|
      (Passes.of_keeps (scanWhile_keeps hcont)).trans (Passes.of_keeps (undo_keeps hundo))
  have hdata : d₃.data = pre ++ c :: l ++ r := by
    rw [(undo_keeps hundo).1, (scanWhile_keeps hcont).1, hat.data_eq]
    simp
  -- the bytes of the literal are cut out of the text
  have hitem : (d₃.data.take d₃.off).drop (d₁.off - 1) = c :: l := by
    rw [hdata, hoff, List.take_left, hat.off_eq]
    simp
  have hvalue : valueInterface parseFloat (n + 1) d = literalValue parseFloat (c :: l) d₃ := by
    rw [valueInterface, bind_ok hscan]
    change literalInterface parseFloat d₁ = _
    rw [literalInterface, get_bind, bind_ok hcont, bind_ok hundo, get_bind, hitem]
  refine Decoded.after hkeeps hvalue ⟨_, heval d₃ pre hoff, ⟨rfl, rfl⟩, fun _ hr => ?_⟩
  exact (hpending hr).saved _

/-! ### Where a value begins -/

/-- A byte that a value begins with: wherever it is read, its code says so. -/
structure FirstByte (c : UInt8) (op : ScanCode) (q : Step) : Prop where
  not_space : ¬ isSpace c
  ne_endArray : c ≠ endArray
  op_ne : op ≠ .scanSkipSpace ∧ op ≠ .scanEndArray
  next_eq : ∀ ps, ∃ ps', ∀ s : Scanner, (s.goto .beginValue ps).next c = (op, s.goto q ps')

theorem firstByte_of_spells (h : Json.Spells (.value t) w ns) :
    ∃ c l op q, w = c :: l ∧ FirstByte c op q := by
  have hliteral : ∀ {w : GoString}, w ∈ literals → ∃ c l op q, w = c :: l ∧ FirstByte c op q := by
    rintro _ ⟨c, q, l, rfl, hc, -⟩
    obtain ⟨hspace, hbracket⟩ := opens_ne hc
    exact ⟨c, l, .scanBeginLiteral, q, rfl, hspace, hbracket, by decide, fun ps =>
      ⟨ps, fun s => hc s ps⟩⟩
  have harray : FirstByte beginArray .scanBeginArray .beginValueOrEmpty :=
    ⟨by decide, by decide, by decide, fun ps => ⟨_, fun s => next_beginArray s⟩⟩
  have hobject : FirstByte beginObject .scanBeginObject .beginStringOrEmpty :=
    ⟨by decide, by decide, by decide, fun ps => ⟨_, fun s => next_beginObject s⟩⟩
  cases h with
  | null => exact hliteral null_mem_literals
  | true => exact hliteral true_mem_literals
  | false => exact hliteral false_mem_literals
  | number hn => exact hliteral (number_le_literals hn)
  | string hs => exact hliteral (quoted_le_literals (Json.quoted_of_chars hs))
  | emptyArray hw => exact ⟨_, _, _, _, rfl, harray⟩
  | array hu => exact ⟨_, _, _, _, rfl, harray⟩
  | emptyObject hw => exact ⟨_, _, _, _, rfl, hobject⟩
  | object hu => exact ⟨_, _, _, _, rfl, hobject⟩

/-- White space before a value is passed over. -/
theorem At.scanWhile_firstByte (h : At d pre q ps (u ++ c :: r)) (hq : BeginsValue q)
    (hu : u ∈ Json.ws) (hc : FirstByte c op q') :
    ∃ d' ps', Decode.scanWhile .scanSkipSpace d = .ok (op, d') ∧
      At d' (pre ++ u ++ [c]) q' ps' r ∧
      ∀ s : Scanner, (s.goto .beginValue ps).next c = (op, s.goto q' ps') := by
  obtain ⟨ps', hps'⟩ := hc.next_eq ps
  have hspace : ∀ s : Scanner, ∀ b ∈ u, (s.goto q ps).next b = (.scanSkipSpace, s.goto q ps) := by
    intro s b hb
    rcases hq with rfl | rfl
    · exact if_pos (Json.mem_ws.mp hu b hb)
    · exact if_pos (Json.mem_ws.mp hu b hb)
  obtain ⟨d', hd', hat⟩ := h.scanWhile hspace
    (fun s => (next_of_beginsValue hq hc.not_space hc.ne_endArray).trans (hps' s)) hc.op_ne.1
  exact ⟨d', ps', hd', hat, hps'⟩

theorem At.begins (h : At d pre .beginValue ps (u ++ c :: r)) (hu : u ∈ Json.ws)
    (hc : FirstByte c op q') : Begins d (pre ++ u) ps (c :: r) := by
  obtain ⟨d', ps', hd', hat, hps'⟩ := h.scanWhile_firstByte (.inl rfl) hu hc
  exact ⟨c, r, op, q', ps', rfl, hps', hc.op_ne.1, d', hd', hat⟩

/-! ### Arrays -/

/-- **One round of `arrayInterface`** reads an element, and the byte after it. -/
theorem arrayInterface_round {n : ℕ} {w' : GoString} {v : List (Interface F)}
    (h : At d pre q (.parseArrayValue :: ps) (u ++ w ++ w' ++ c :: r)) (hq : BeginsValue q)
    (hu : u ∈ Json.ws) (hw : Json.Spells (.value t) w ns) (ih : DecodesValue parseFloat t w ns)
    (hw' : w' ∈ Json.ws) (hn : 2 * w.length ≤ n) (hterm : isTerminator c)
    (hc : ∀ s : Scanner,
      (s.goto .endValue (.parseArrayValue :: ps)).next c = (op, s.goto q' ps'))
    (hop : op ≠ .scanSkipSpace) :
    ∃ d', arrayInterface parseFloat (n + 1) v d =
        (if op = .scanEndArray then pure (.slice (v ++ [denote parseFloat t]))
          else if op ≠ .scanArrayValue then fail .errPhase
          else arrayInterface parseFloat n (v ++ [denote parseFloat t])) d' ∧
      At d' (pre ++ (u ++ w ++ w') ++ [c]) q' ps' r ∧
      Passes parseFloat d (ns.shift (pre ++ u).length) d' := by
  obtain ⟨b, l, op₁, q₁, rfl, hb⟩ := firstByte_of_spells hw
  simp only [List.append_assoc, List.cons_append] at h
  obtain ⟨d₁, ps₁, hscan, hat, hnext⟩ := h.scanWhile_firstByte hq hu hb
  obtain ⟨d₂, hundo, hreads⟩ := hat.undo hb.op_ne.1
  -- the first byte of the element is read a second time
  have hbegins : Begins d₂ (pre ++ u) (.parseArrayValue :: ps) ((b :: l) ++ (w' ++ c :: r)) :=
    ⟨b, _, op₁, q₁, ps₁, rfl, hnext, hb.op_ne.1, hreads⟩
  obtain ⟨d₃, hvalue, hpasses, hpending⟩ :=
    ih n d₂ _ _ _ hn (terminates_ws hw' hterm r) hbegins
  obtain ⟨d₄, hscan', hat'⟩ :=
    (hpending (List.cons_ne_nil _ _) (by simp)).scanWhile hw' hc hop
  refine ⟨d₄, ?_, ?_, ?_⟩
  · rw [arrayInterface, bind_ok hscan, if_neg hb.op_ne.2, bind_ok hundo, bind_ok hvalue,
      bind_ok hscan']
  · simpa only [List.append_assoc] using hat'
  · have h₁ : Passes parseFloat d [] d₂ :=
      (Passes.of_keeps (scanWhile_keeps hscan)).trans (.of_keeps (undo_keeps hundo))
    have h₂ := (h₁.trans hpasses).trans (.of_keeps (scanWhile_keeps hscan'))
    simpa using h₂

/-! ### Objects -/

/-- The bytes of a lexeme are passed over, and one more byte is read. -/
theorem At.scanWhile_path {q₁ : Step} (h : At d pre q ps (w ++ c :: r)) (hw : Path keeps q w q₁)
    (hc : ∀ s : Scanner, (s.goto q₁ ps).next c = (op, s.goto q' ps')) (hop : op ≠ .scanContinue) :
    ∃ d', Decode.scanWhile .scanContinue d = .ok (op, d') ∧ At d' (pre ++ w ++ [c]) q' ps' r := by
  obtain ⟨s, hs⟩ := h.scan_eq
  have hloop : scanWhileLoop .scanContinue d.data.length (d.data.drop d.off) d.off d.scan =
      (op, d.off + w.length + 1, s.goto q' ps') := by
    rw [h.drop_off, hs, scanWhileLoop_path hw, scanWhileLoop, hc s]
    exact if_pos hop
  refine ⟨{ d with off := d.off + w.length + 1, scan := s.goto q' ps' }, ?_, ?_, ?_, s, rfl⟩
  · rw [Decode.scanWhile, hloop]
  · simp [h.data_eq]
  · simp [h.off_eq, Nat.add_assoc]

/-- From the name of a member to the colon, with white space or without. -/
theorem At.colon {w₁ : GoString} (h : At d pre .inString (.parseObjectKey :: ps)
      (w ++ [0x22] ++ w₁ ++ 0x3A :: r)) (hw : w ∈ Json.chars) (hw₁ : w₁ ∈ Json.ws) :
    ∃ op d₁ d₂, Decode.scanWhile .scanContinue d = .ok (op, d₁) ∧
      d₁.off - 1 = (pre ++ w ++ [0x22]).length ∧
      (if op = .scanSkipSpace then Decode.scanWhile .scanSkipSpace else pure op) d₁ =
        .ok (.scanObjectKey, d₂) ∧
      At d₂ (pre ++ w ++ [0x22] ++ w₁ ++ [0x3A]) .beginValue (.parseObjectValue :: ps) r ∧
      Passes parseFloat d [] d₂ ∧ d₁.data = d.data := by
  have hpath : Path keeps .inString (w ++ [0x22]) .endValue :=
    chars_quote_le_paths (Language.append_mem_mul hw (singleton_mem_letters.mpr rfl))
  cases w₁ with
  | nil =>
    -- the name is ended by the colon itself
    rw [List.append_nil] at h
    obtain ⟨d₁, hscan, hat⟩ := h.scanWhile_path hpath (fun s => next_colon s) (by decide)
    refine ⟨_, d₁, d₁, hscan, ?_, rfl, ?_, .of_keeps (scanWhile_keeps hscan),
      (scanWhile_keeps hscan).1⟩
    · simp [hat.off_eq]
    · simpa only [List.append_assoc, List.nil_append] using hat
  | cons b w₁ =>
    have hspace : ∀ (s : Scanner) (b' : UInt8), isSpace b' →
        (s.goto .endValue (.parseObjectKey :: ps)).next b' =
          (.scanSkipSpace, s.goto .endValue (.parseObjectKey :: ps)) := fun s _ hb' =>
      stateEndValue_space s (by decide) hb' .parseObjectKey
    have hw₁ := Json.mem_ws.mp hw₁
    rw [List.forall_mem_cons] at hw₁
    rw [List.append_assoc, List.cons_append] at h
    obtain ⟨d₁, hscan, hat⟩ := h.scanWhile_path hpath (fun s => hspace s b hw₁.1) (by decide)
    obtain ⟨d₂, hscan', hat'⟩ :=
      hat.scanWhile (fun s b' hb' => hspace s b' (hw₁.2 b' hb')) (fun s => next_colon s) (by decide)
    refine ⟨_, d₁, d₂, hscan, ?_, hscan', ?_, ?_, (scanWhile_keeps hscan).1⟩
    · simp [hat.off_eq]
    · simpa only [List.append_assoc, List.cons_append, List.nil_append] using hat'
    · exact (Passes.of_keeps (scanWhile_keeps hscan)).trans (.of_keeps (scanWhile_keeps hscan'))

/-- **One round of `objectInterface`** reads a member, and the byte after it. -/
theorem objectInterface_round {n : ℕ} {k v w₀ w₁ w₂ w₃ : GoString}
    {m : List (GoString × Interface F)}
    (h : At d pre q (.parseObjectKey :: ps)
      (w₀ ++ ([0x22] ++ k ++ [0x22]) ++ w₁ ++ [0x3A] ++ w₂ ++ v ++ w₃ ++ c :: r))
    (hq : q = .beginString ∨ q = .beginStringOrEmpty) (hw₀ : w₀ ∈ Json.ws) (hk : k ∈ Json.chars)
    (hw₁ : w₁ ∈ Json.ws) (hw₂ : w₂ ∈ Json.ws) (hv : Json.Spells (.value t) v ns)
    (ih : DecodesValue parseFloat t v ns) (hw₃ : w₃ ∈ Json.ws) (hn : 2 * v.length ≤ n)
    (hterm : isTerminator c)
    (hc : ∀ s : Scanner,
      (s.goto .endValue (.parseObjectValue :: ps)).next c = (op, s.goto q' ps'))
    (hop : op ≠ .scanSkipSpace) :
    ∃ d', objectInterface parseFloat (n + 1) m d =
        (if op = .scanEndObject then pure (.map (setKey m (unquoted k) (denote parseFloat t)))
          else if op ≠ .scanObjectValue then fail .errPhase
          else objectInterface parseFloat n (setKey m (unquoted k) (denote parseFloat t))) d' ∧
      At d' (pre ++ (w₀ ++ ([0x22] ++ k ++ [0x22]) ++ w₁ ++ [0x3A] ++ w₂ ++ v ++ w₃) ++ [c]) q' ps'
        r ∧
      Passes parseFloat d
        (ns.shift (pre ++ (w₀ ++ ([0x22] ++ k ++ [0x22]) ++ w₁ ++ [0x3A] ++ w₂)).length) d' := by
  simp only [List.append_assoc, List.cons_append, List.nil_append] at h
  have hspace : ∀ s : Scanner, ∀ b ∈ w₀, (s.goto q (.parseObjectKey :: ps)).next b =
      (.scanSkipSpace, s.goto q (.parseObjectKey :: ps)) := by
    intro s b hb
    rcases hq with rfl | rfl
    · exact if_pos (Json.mem_ws.mp hw₀ b hb)
    · exact if_pos (Json.mem_ws.mp hw₀ b hb)
  have hquote : ∀ s : Scanner, (s.goto q (.parseObjectKey :: ps)).next 0x22 =
      (.scanBeginLiteral, s.goto .inString (.parseObjectKey :: ps)) := by
    rcases hq with rfl | rfl
    · exact fun _ => rfl
    · exact fun _ => rfl
  -- the quote is found, and the name up to the colon
  obtain ⟨d₁, hscan, hat₁⟩ := h.scanWhile hspace hquote (by decide)
  have hname : k ++ 0x22 :: (w₁ ++ 0x3A :: (w₂ ++ (v ++ (w₃ ++ c :: r)))) =
      k ++ [0x22] ++ w₁ ++ 0x3A :: (w₂ ++ (v ++ (w₃ ++ c :: r))) := by simp
  rw [hname] at hat₁
  obtain ⟨op₂, d₂, d₃, hcont, hoff₂, hcolon, hat₃, hpasses₃, hdata₂⟩ := hat₁.colon hk hw₁
  -- the name is cut out of the text
  have hkey : unquoteBytes ((d₂.data.take (d₂.off - 1)).drop (d₁.off - 1)) = some (unquoted k) := by
    have hpre : pre ++ w₀ ++ [0x22] ++ (k ++ [0x22] ++ w₁ ++
        0x3A :: (w₂ ++ (v ++ (w₃ ++ c :: r)))) =
        (pre ++ w₀ ++ [0x22] ++ k ++ [0x22]) ++ (w₁ ++ 0x3A :: (w₂ ++ (v ++ (w₃ ++ c :: r)))) := by
      simp
    have hitem : (pre ++ w₀ ++ [0x22] ++ k ++ [0x22]).drop (pre ++ w₀).length =
        [0x22] ++ k ++ [0x22] := by
      rw [List.append_assoc (pre ++ w₀), List.append_assoc (pre ++ w₀), List.drop_left]
    rw [hdata₂, hat₁.data_eq, hpre, hoff₂, List.take_left, hat₁.off_eq, List.length_append,
      List.length_singleton, Nat.add_sub_cancel, hitem]
    exact unquoteBytes_of_chars hk
  -- the value after the colon
  obtain ⟨b, l, op₄, q₄, rfl, hb⟩ := firstByte_of_spells hv
  have hbegins := hat₃.begins hw₂ hb
  obtain ⟨d₄, hvalue, hpasses₄, hpending⟩ :=
    ih n d₃ _ _ _ hn (terminates_ws hw₃ hterm r) hbegins
  obtain ⟨d₅, hscan₅, hat₅⟩ :=
    (hpending (List.cons_ne_nil _ _) (by simp)).scanWhile hw₃ hc hop
  refine ⟨d₅, ?_, ?_, ?_⟩
  · rw [objectInterface, bind_ok hscan, if_neg (by decide), if_neg (by decide), get_bind,
      bind_ok hcont, get_bind, hkey]
    simp only
    rw [ite_bind, bind_ok hcolon, if_neg (by decide), bind_ok hvalue, bind_ok hscan₅]
  · simpa only [List.append_assoc, List.cons_append, List.nil_append] using hat₅
  · have h₁ : Passes parseFloat d [] d₃ :=
      (Passes.of_keeps (scanWhile_keeps hscan)).trans hpasses₃
    have h₂ := (h₁.trans hpasses₄).trans (.of_keeps (scanWhile_keeps hscan₅))
    rw [List.nil_append, List.append_nil] at h₂
    simpa only [List.append_assoc, List.cons_append, List.nil_append] using h₂

/-! ### The derivation -/

/-- What the parts of a derivation have to give. The calls that decode a part are bounded
by its length. -/
def DecodesPart (parseFloat : GoString → Option F) : Json.Part → GoString → Json.Numbers → Prop
  | .value t, w, ns => DecodesValue parseFloat t w ns
  | .elements ts, w, ns => ∀ n d pre q ps r v, 2 * w.length + 1 ≤ n → BeginsValue q →
    At d pre q (.parseArrayValue :: ps) (w ++ endArray :: r) →
    Decoded parseFloat (arrayInterface parseFloat n v) d (.slice (v ++ denoteElems parseFloat ts))
      (ns.shift pre.length) (pre ++ w ++ [endArray]) ps r
  | .members ms, w, ns => ∀ n d pre q ps r m, 2 * w.length + 1 ≤ n →
    (q = .beginString ∨ q = .beginStringOrEmpty) →
    At d pre q (.parseObjectKey :: ps) (w ++ endObject :: r) →
    Decoded parseFloat (objectInterface parseFloat n m) d (.map (denoteMembers parseFloat m ms))
      (ns.shift pre.length) (pre ++ w ++ [endObject]) ps r

/-- A bracket opens an array, which is decoded by `arrayInterface`. -/
theorem decoded_array {n : ℕ} (hn : 2 * ([0x5B] ++ u ++ [0x5D]).length ≤ n)
    (h : Begins d pre ps ([0x5B] ++ u ++ [0x5D] ++ r))
    (hbody : ∀ n d₁, 2 * u.length + 1 ≤ n →
      At d₁ (pre ++ [beginArray]) .beginValueOrEmpty (.parseArrayValue :: ps) (u ++ endArray :: r) →
      Decoded parseFloat (arrayInterface parseFloat n []) d₁ x
        (ns.shift (pre ++ [beginArray]).length) (pre ++ [beginArray] ++ u ++ [endArray]) ps r) :
    Decoded parseFloat (valueInterface parseFloat n) d x ((ns.shift 1).shift pre.length)
      (pre ++ ([0x5B] ++ u ++ [0x5D])) ps r := by
  rw [List.length_append, List.length_append] at hn
  obtain ⟨n, rfl⟩ : ∃ m, n = m + 1 := ⟨n - 1, by simp at hn; omega⟩
  rw [List.append_assoc, List.append_assoc] at h
  obtain ⟨d₁, hscan, hat⟩ := h.readsNext fun s => next_beginArray s
  have hbody := hbody n d₁ (by simp at hn; omega) hat
  rw [List.append_assoc, List.append_assoc, List.length_append] at hbody
  rw [Json.Numbers.shift_shift]
  refine Decoded.after (.of_keeps (scanWhile_keeps hscan)) ?_ hbody
  rw [valueInterface, bind_ok hscan]

/-- A brace opens an object, which is decoded by `objectInterface`. -/
theorem decoded_object {n : ℕ} (hn : 2 * ([0x7B] ++ u ++ [0x7D]).length ≤ n)
    (h : Begins d pre ps ([0x7B] ++ u ++ [0x7D] ++ r))
    (hbody : ∀ n d₁, 2 * u.length + 1 ≤ n →
      At d₁ (pre ++ [beginObject]) .beginStringOrEmpty (.parseObjectKey :: ps)
        (u ++ endObject :: r) →
      Decoded parseFloat (objectInterface parseFloat n []) d₁ x
        (ns.shift (pre ++ [beginObject]).length) (pre ++ [beginObject] ++ u ++ [endObject]) ps r) :
    Decoded parseFloat (valueInterface parseFloat n) d x ((ns.shift 1).shift pre.length)
      (pre ++ ([0x7B] ++ u ++ [0x7D])) ps r := by
  rw [List.length_append, List.length_append] at hn
  obtain ⟨n, rfl⟩ : ∃ m, n = m + 1 := ⟨n - 1, by simp at hn; omega⟩
  rw [List.append_assoc, List.append_assoc] at h
  obtain ⟨d₁, hscan, hat⟩ := h.readsNext fun s => next_beginObject s
  have hbody := hbody n d₁ (by simp at hn; omega) hat
  rw [List.append_assoc, List.append_assoc, List.length_append] at hbody
  rw [Json.Numbers.shift_shift]
  refine Decoded.after (.of_keeps (scanWhile_keeps hscan)) ?_ hbody
  rw [valueInterface, bind_ok hscan]

/-- **Every part of a derivation is decoded** to what it denotes. -/
theorem decodesPart_of_spells (parseFloat : GoString → Option F) {part : Json.Part}
    (h : Json.Spells part w ns) : DecodesPart parseFloat part w ns := by
  -- by induction on the derivation: a part takes at most two calls for each of its bytes
  induction h with
  | null => exact decodesValue_literal null_mem_literals (evaluates_null parseFloat)
  | true => exact decodesValue_literal true_mem_literals (evaluates_true parseFloat)
  | false => exact decodesValue_literal false_mem_literals (evaluates_false parseFloat)
  | number hn =>
    exact decodesValue_literal (number_le_literals hn) (evaluates_number parseFloat hn)
  | string hs =>
    exact decodesValue_literal (quoted_le_literals (Json.quoted_of_chars hs))
      (evaluates_string parseFloat hs)
  | emptyArray hw =>
    intro n d pre ps r hn hr h
    change Decoded parseFloat _ d _ ((Json.Numbers.shift 1 []).shift pre.length) _ ps r
    refine decoded_array hn h fun n d₁ hn hat => ?_
    obtain ⟨n, rfl⟩ : ∃ m, n = m + 1 := ⟨n - 1, by omega⟩
    obtain ⟨d₂, hscan, hat'⟩ := hat.scanWhile
      (fun s b hb => if_pos (Json.mem_ws.mp hw b hb)) (fun s => next_endArray s (.inr rfl))
      (by decide)
    refine Decoded.after (.of_keeps (scanWhile_keeps hscan)) ?_ (.pure hat')
    rw [arrayInterface, bind_ok hscan, if_pos rfl]
    rfl
  | array hu ih =>
    intro n d pre ps r hn hr h
    exact decoded_array hn h fun n d₁ hn hat => ih n d₁ _ _ ps r [] hn (.inr rfl) hat
  | emptyObject hw =>
    intro n d pre ps r hn hr h
    change Decoded parseFloat _ d _ ((Json.Numbers.shift 1 []).shift pre.length) _ ps r
    refine decoded_object hn h fun n d₁ hn hat => ?_
    obtain ⟨n, rfl⟩ : ∃ m, n = m + 1 := ⟨n - 1, by omega⟩
    obtain ⟨d₂, hscan, hat'⟩ := hat.scanWhile
      (fun s b hb => if_pos (Json.mem_ws.mp hw b hb)) (fun s => next_emptyObject s) (by decide)
    refine Decoded.after (.of_keeps (scanWhile_keeps hscan)) ?_ (.pure hat')
    rw [objectInterface, bind_ok hscan, if_pos rfl]
    rfl
  | object hu ih =>
    intro n d pre ps r hn hr h
    exact decoded_object hn h fun n d₁ hn hat => ih n d₁ _ _ ps r [] hn (.inr rfl) hat
  | @element t w v w' ns hw hv hw' ih =>
    intro n d pre q ps r l hn hq h
    obtain ⟨n, rfl⟩ : ∃ m, n = m + 1 := ⟨n - 1, by omega⟩
    have hlen : 2 * v.length ≤ n := by simp at hn; omega
    obtain ⟨d', hround, hat, hpasses⟩ := arrayInterface_round h hq hw hv ih hw' hlen
      (.inr (.inr (.inl rfl))) (fun s => next_endArray s (.inl rfl)) (by decide)
    rw [Json.Numbers.shift_shift, ← List.length_append, ← List.append_nil (ns.shift _)]
    exact Decoded.after hpasses hround (.pure hat)
  | @elements t ts w v w' u ns ns' hw hv hw' hu ihv ihu =>
    intro n d pre q ps r l hn hq h
    obtain ⟨n, rfl⟩ : ∃ m, n = m + 1 := ⟨n - 1, by omega⟩
    have hlen : 2 * v.length ≤ n ∧ 2 * u.length + 1 ≤ n := by simp at hn; omega
    have h : At d pre q (.parseArrayValue :: ps)
        (w ++ v ++ w' ++ 0x2C :: (u ++ endArray :: r)) := by
      simpa using h
    obtain ⟨d', hround, hat, hpasses⟩ := arrayInterface_round h hq hw hv ihv hw' hlen.1
      (.inr (.inl rfl)) (fun s => next_arrayComma s) (by decide)
    -- the comma leads to the elements after it, whose numbers come after those of this one
    have hrest := ihu n d' _ _ ps r (l ++ [denote parseFloat t]) hlen.2 (.inl rfl) hat
    rw [List.append_assoc pre, List.append_assoc pre, List.append_assoc l] at hrest
    rw [Json.Numbers.shift_append, Json.Numbers.shift_shift, Json.Numbers.shift_shift,
      ← List.length_append, ← List.length_append]
    exact Decoded.after hpasses hround hrest
  | @member s t w₀ w₁ w₂ v w₃ ns hw₀ hs hw₁ hw₂ hv hw₃ ih =>
    intro n d pre q ps r m hn hq h
    obtain ⟨n, rfl⟩ : ∃ m, n = m + 1 := ⟨n - 1, by omega⟩
    have hlen : 2 * v.length ≤ n := by simp at hn; omega
    obtain ⟨d', hround, hat, hpasses⟩ := objectInterface_round h hq hw₀ hs hw₁ hw₂ hv ih hw₃ hlen
      (.inr (.inr (.inr (.inl rfl)))) (fun s => next_endObject s) (by decide)
    rw [Json.Numbers.shift_shift, ← List.length_append, ← List.append_nil (ns.shift _)]
    exact Decoded.after hpasses hround (.pure hat)
  | @members s t ms w₀ w₁ w₂ v w₃ u ns ns' hw₀ hs hw₁ hw₂ hv hw₃ hu ihv ihu =>
    intro n d pre q ps r m hn hq h
    obtain ⟨n, rfl⟩ : ∃ m, n = m + 1 := ⟨n - 1, by omega⟩
    have hlen : 2 * v.length ≤ n ∧ 2 * u.length + 1 ≤ n := by simp at hn; omega
    have h : At d pre q (.parseObjectKey :: ps)
        (w₀ ++ ([0x22] ++ s ++ [0x22]) ++ w₁ ++ [0x3A] ++ w₂ ++ v ++ w₃ ++
          0x2C :: (u ++ endObject :: r)) := by
      simpa using h
    obtain ⟨d', hround, hat, hpasses⟩ := objectInterface_round h hq hw₀ hs hw₁ hw₂ hv ihv hw₃
      hlen.1 (.inr (.inl rfl)) (fun s => next_objectComma s) (by decide)
    -- the members after it may overwrite its entry
    have hrest := ihu n d' _ _ ps r (setKey m (unquoted s) (denote parseFloat t)) hlen.2 (.inl rfl)
      hat
    rw [List.append_assoc pre, List.append_assoc pre] at hrest
    rw [Json.Numbers.shift_append, Json.Numbers.shift_shift, Json.Numbers.shift_shift,
      ← List.length_append, ← List.length_append]
    exact Decoded.after hpasses hround hrest

/-! ### The whole text -/

/-- A JSON text is decoded to what any derivation of it denotes. -/
theorem unmarshal_spells (parseFloat : GoString → Option F) {u' : GoString} (hu : u ∈ Json.ws)
    (hw : Json.Spells (.value t) w ns) (hu' : u' ∈ Json.ws) :
    unmarshal parseFloat (u ++ w ++ u') =
      .done (denote parseFloat t) (firstRefused parseFloat (ns.shift u.length)) := by
  have hcheck : checkValid (u ++ w ++ u') {} = none :=
    (checkValid_iff _ _).mpr (Json.mem_text.mpr ⟨u, hu, t, w, ns, hw, u', hu', rfl⟩)
  have hvalue := decodesPart_of_spells parseFloat hw
  obtain ⟨c, l, op, q, rfl, hc⟩ := firstByte_of_spells hw
  generalize hdata : u ++ c :: l ++ u' = data at hcheck ⊢
  -- the decoder starts at the beginning of the text
  have hat : At { data := data, scan := ({ bytes := data.length } : Scanner).reset } []
      .beginValue [] (u ++ c :: (l ++ u')) := by
    refine ⟨?_, rfl, _, rfl⟩
    rw [← hdata]
    exact List.append_assoc u (c :: l) u'
  have hlen : 2 * (c :: l).length ≤ 2 * data.length := by
    rw [← hdata]
    simp only [List.length_append]
    omega
  obtain ⟨d', hd', hpasses, -⟩ :=
    hvalue _ _ _ [] u' hlen (terminates_of_mem_ws hu') (hat.begins hu hc)
  simp only [unmarshal, hcheck, hd']
  rw [hpasses.2]
  rfl

/-- **What `Unmarshal` returns.** It is a syntax error exactly for a text that is no JSON.
Any other text is decoded to the one value that its derivation denotes, and the error names
the first number of the derivation that is refused and where that number ends in the text.
The decoder is never out of step with the scanner, and its bound is never reached. -/
theorem unmarshal_spec (parseFloat : GoString → Option F) (data : GoString) :
    ((∃ err, unmarshal parseFloat data = .syntaxError err) ↔ data ∉ Json.text) ∧
    (∀ u ∈ Json.ws, ∀ t w ns, Json.Spells (.value t) w ns → ∀ u' ∈ Json.ws, data = u ++ w ++ u' →
      ∃ x, (∀ y, Denotes parseFloat t y ↔ y = x) ∧
        unmarshal parseFloat data = .done x (firstRefused parseFloat (ns.shift u.length))) ∧
    ∀ fault, unmarshal parseFloat data ≠ .fault fault := by
  refine ⟨⟨?_, fun hdata => ?_⟩, ?_, fun fault hfault => ?_⟩
  · -- a JSON text is decoded
    rintro ⟨err, herr⟩ hdata
    obtain ⟨u, hu, t, w, ns, hw, u', hu', rfl⟩ := Json.mem_text.mp hdata
    rw [unmarshal_spells parseFloat hu hw hu'] at herr
    cases herr
  · -- any other text has been refused before that
    obtain ⟨err, herr⟩ := Option.ne_none_iff_exists'.mp (mt (checkValid_iff data {}).mp hdata)
    exact ⟨err, by rw [unmarshal, herr]⟩
  · rintro u hu t w ns hw u' hu' rfl
    exact ⟨_, fun y => denotes_iff hw, unmarshal_spells parseFloat hu hw hu'⟩
  · by_cases hdata : data ∈ Json.text
    · obtain ⟨u, hu, t, w, ns, hw, u', hu', rfl⟩ := Json.mem_text.mp hdata
      rw [unmarshal_spells parseFloat hu hw hu'] at hfault
      cases hfault
    · obtain ⟨err, herr⟩ := Option.ne_none_iff_exists'.mp (mt (checkValid_iff data {}).mp hdata)
      rw [unmarshal, herr] at hfault
      cases hfault

end

end PluginsDatastore
