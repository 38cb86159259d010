import Mathlib.Data.List.TakeWhile
import Tensorplate.Http.Model.Server

/-!
# What a connection comes to

The reads of a connection give the bytes of the stream in their order, and
the header block is found where it first ends, however the stream is split.
`intended` is the outcome by the bytes alone: the start line, the header
lines, and as many bytes behind them as the content length says. The server
comes to it for every split exactly on the streams that are `Proper`.
-/

namespace Tensorplate

namespace Http

open Lib

/-! ## Reading -/

section Reading

variable {c : Connection} {capacity : ℕ} {buffer : List Char}

theorem recv_append (c : Connection) (capacity : ℕ) :
    (c.recv capacity).1 ++ (c.recv capacity).2.unread = c.unread :=
  List.take_append_drop _ _

theorem recv_length_le (c : Connection) (capacity : ℕ) :
    (c.recv capacity).1.length ≤ capacity := by
  unfold Connection.recv
  dsimp only
  rw [List.length_take]
  omega

/-- A read returns nothing at the end of the stream only. -/
theorem recv_ne_nil (hcap : 0 < capacity) (hne : c.unread ≠ []) : (c.recv capacity).1 ≠ [] := by
  intro hnil
  unfold Connection.recv at hnil
  dsimp only at hnil
  rw [List.take_eq_nil_iff] at hnil
  rcases hnil with hzero | hempty
  · cases hs : c.sizes with
    | nil =>
      rw [hs] at hzero
      dsimp only at hzero
      omega
    | cons k rest =>
      rw [hs] at hzero
      dsimp only at hzero
      omega
  · exact hne hempty

theorem recv_eq_nil (hnil : c.unread = []) : (c.recv capacity).1 = [] := by
  unfold Connection.recv
  rw [hnil]
  exact List.take_nil

theorem recv_unread_lt (hcap : 0 < capacity) (hne : c.unread ≠ []) :
    (c.recv capacity).2.unread.length < c.unread.length := by
  have hlen := congrArg List.length (recv_append c capacity)
  have hpos := List.length_pos_iff.2 (recv_ne_nil hcap hne)
  rw [List.length_append] at hlen
  omega

/-- **The body is read to its length**, if the stream has as much. -/
theorem readRemainingBody_eq {needTotal : ℕ} : ∀ (fuel : ℕ) (buffer : List Char) (c : Connection),
    c.unread.length ≤ fuel → buffer.length ≤ needTotal →
      readRemainingBody needTotal fuel buffer c =
        if (buffer ++ c.unread).length < needTotal then none
        else some ((buffer ++ c.unread).take needTotal) := by
  intro fuel
  induction fuel with
  | zero =>
    intro buffer c hfuel hle
    have hnil : c.unread = [] := List.length_eq_zero_iff.1 (by omega)
    rw [readRemainingBody, hnil, List.append_nil]
    split_ifs with hlt
    · rfl
    · rw [List.take_of_length_le (by omega)]
  | succ fuel ih =>
    intro buffer c hfuel hle
    rw [readRemainingBody]
    split_ifs with hlt hshort hshort
    · dsimp only
      by_cases hnil : c.unread = []
      · rw [if_pos (recv_eq_nil hnil)]
      · have hcap : 0 < min kReadChunk (needTotal - buffer.length) := by
          unfold kReadChunk
          omega
        have hdrop := recv_unread_lt hcap hnil
        have hchunk := recv_length_le c (min kReadChunk (needTotal - buffer.length))
        rw [if_neg (recv_ne_nil hcap hnil), ih _ _ (by omega)
          (by rw [List.length_append]; omega), List.append_assoc, recv_append, if_pos hshort]
    · dsimp only
      have hnil : c.unread ≠ [] := by
        intro hnil
        rw [hnil, List.append_nil] at hshort
        omega
      have hcap : 0 < min kReadChunk (needTotal - buffer.length) := by
        unfold kReadChunk
        omega
      have hdrop := recv_unread_lt hcap hnil
      have hchunk := recv_length_le c (min kReadChunk (needTotal - buffer.length))
      rw [if_neg (recv_ne_nil hcap hnil), ih _ _ (by omega)
        (by rw [List.length_append]; omega), List.append_assoc, recv_append, if_neg hshort]
    · rw [List.length_append] at hshort
      omega
    · have heq : buffer.length = needTotal := by omega
      rw [List.take_append_of_le_length (by omega), List.take_of_length_le (by omega)]

/-- A read that is not at the end of the stream: one more turn of the loop. -/
theorem readUntilHeaders_succ {maxHeaderBytes fuel : ℕ} (hcut : cutAt headerEnd buffer = none)
    (hle : buffer.length ≤ maxHeaderBytes) (hne : c.unread ≠ []) :
    readUntilHeaders maxHeaderBytes (fuel + 1) buffer c =
      readUntilHeaders maxHeaderBytes fuel (buffer ++ (c.recv kReadChunk).1)
        (c.recv kReadChunk).2 := by
  rw [readUntilHeaders, hcut]
  dsimp only
  rw [if_neg (by omega), if_neg (recv_ne_nil (by decide) hne)]

/-- **The header block is found where it first ends**, with less than one
read's bytes behind it. -/
theorem readUntilHeaders_found {maxHeaderBytes : ℕ} {head rest : List Char}
    (hmax : head.length + 4 ≤ maxHeaderBytes) : ∀ (fuel : ℕ) (buffer : List Char) (c : Connection),
    c.unread.length ≤ fuel → cutAt headerEnd buffer = none →
      cutAt headerEnd (buffer ++ c.unread) = some (head, rest) →
        ∃ buffered c', readUntilHeaders maxHeaderBytes fuel buffer c =
          .found (head ++ (headerEnd ++ buffered)) c' ∧ buffered ++ c'.unread = rest ∧
            buffered.length < kReadChunk := by
  intro fuel
  induction fuel with
  | zero =>
    intro buffer c hfuel hcut hall
    have hnil : c.unread = [] := List.length_eq_zero_iff.1 (by omega)
    rw [hnil, List.append_nil, hcut] at hall
    cases hall
  | succ fuel ih =>
    intro buffer c hfuel hcut hall
    have hlt : buffer.length < head.length + 4 := lt_of_cutAt_append hcut hall
    have hne : c.unread ≠ [] := by
      intro hnil
      rw [hnil, List.append_nil, hcut] at hall
      cases hall
    have hdrop := recv_unread_lt (by decide : 0 < kReadChunk) hne
    have happ := recv_append c kReadChunk
    have hchunk := recv_length_le c kReadChunk
    rw [readUntilHeaders_succ hcut (by omega) hne]
    have hall' : cutAt headerEnd (buffer ++ (c.recv kReadChunk).1 ++ (c.recv kReadChunk).2.unread) =
        some (head, rest) := by
      rw [List.append_assoc, happ]
      exact hall
    cases hnext : cutAt headerEnd (buffer ++ (c.recv kReadChunk).1) with
    | none => exact ih _ _ (by omega) hnext hall'
    | some p =>
      obtain ⟨head', buffered⟩ := p
      have hmore := cutAt_append hnext (c.recv kReadChunk).2.unread
      rw [hall'] at hmore
      simp only [Option.some.injEq, Prod.mk.injEq] at hmore
      obtain ⟨rfl, hrest⟩ := hmore
      have hbuffer := cutAt_eq_some hnext
      refine ⟨buffered, (c.recv kReadChunk).2, ?_, hrest.symm, ?_⟩
      · have hlarge : ¬ head.length + 4 > maxHeaderBytes := by omega
        cases fuel with
        | zero => rw [readUntilHeaders, hnext]; dsimp only; rw [if_neg hlarge, ← hbuffer]
        | succ fuel => rw [readUntilHeaders, hnext]; dsimp only; rw [if_neg hlarge, ← hbuffer]
      · have hlen := congrArg List.length hbuffer
        simp only [List.length_append, headerEnd, List.length_cons, List.length_nil] at hlen
        omega

/-- A header block that ends too late is refused. -/
theorem readUntilHeaders_tooLarge {maxHeaderBytes : ℕ} {head rest : List Char}
    (hmax : head.length + 4 > maxHeaderBytes) : ∀ (fuel : ℕ) (buffer : List Char) (c : Connection),
    c.unread.length ≤ fuel → cutAt headerEnd (buffer ++ c.unread) = some (head, rest) →
      readUntilHeaders maxHeaderBytes fuel buffer c = .tooLarge := by
  intro fuel
  induction fuel with
  | zero =>
    intro buffer c hfuel hall
    have hnil : c.unread = [] := List.length_eq_zero_iff.1 (by omega)
    rw [hnil, List.append_nil] at hall
    rw [readUntilHeaders, hall]
    dsimp only
    rw [if_pos hmax]
  | succ fuel ih =>
    intro buffer c hfuel hall
    cases hcut : cutAt headerEnd buffer with
    | some p =>
      obtain ⟨head', after⟩ := p
      have hmore := cutAt_append hcut c.unread
      rw [hall] at hmore
      simp only [Option.some.injEq, Prod.mk.injEq] at hmore
      obtain ⟨rfl, -⟩ := hmore
      rw [readUntilHeaders, hcut]
      dsimp only
      rw [if_pos hmax]
    | none =>
      by_cases hlarge : buffer.length > maxHeaderBytes
      · rw [readUntilHeaders, hcut]
        dsimp only
        rw [if_pos hlarge]
      · have hne : c.unread ≠ [] := by
          intro hnil
          rw [hnil, List.append_nil, hcut] at hall
          cases hall
        have hdrop := recv_unread_lt (by decide : 0 < kReadChunk) hne
        rw [readUntilHeaders_succ hcut (by omega) hne]
        refine ih _ _ (by omega) ?_
        rw [List.append_assoc, recv_append]
        exact hall

/-- A stream without the end of a header block. -/
theorem readUntilHeaders_none (maxHeaderBytes : ℕ) : ∀ (fuel : ℕ) (buffer : List Char)
    (c : Connection), c.unread.length ≤ fuel → cutAt headerEnd (buffer ++ c.unread) = none →
      readUntilHeaders maxHeaderBytes fuel buffer c =
        if (buffer ++ c.unread).length > maxHeaderBytes then .tooLarge else .ended := by
  have hpart : ∀ (buffer more : List Char), cutAt headerEnd (buffer ++ more) = none →
      cutAt headerEnd buffer = none := by
    intro buffer more hall
    cases hcut : cutAt headerEnd buffer with
    | none => rfl
    | some p =>
      obtain ⟨head, after⟩ := p
      rw [cutAt_append hcut more] at hall
      cases hall
  intro fuel
  induction fuel with
  | zero =>
    intro buffer c hfuel hall
    have hnil : c.unread = [] := List.length_eq_zero_iff.1 (by omega)
    rw [readUntilHeaders, hpart _ _ hall, hnil, List.append_nil]
  | succ fuel ih =>
    intro buffer c hfuel hall
    by_cases hlarge : buffer.length > maxHeaderBytes
    · rw [readUntilHeaders, hpart _ _ hall]
      dsimp only
      rw [if_pos hlarge, if_pos (by rw [List.length_append]; omega)]
    · by_cases hnil : c.unread = []
      · rw [readUntilHeaders, hpart _ _ hall]
        dsimp only
        rw [if_neg hlarge, if_pos (recv_eq_nil hnil), hnil, List.append_nil, if_neg hlarge]
      · have hdrop := recv_unread_lt (by decide : 0 < kReadChunk) hnil
        rw [readUntilHeaders_succ (hpart _ _ hall) (by omega) hnil]
        have happ : buffer ++ (c.recv kReadChunk).1 ++ (c.recv kReadChunk).2.unread =
            buffer ++ c.unread := by
          rw [List.append_assoc, recv_append]
        rw [ih _ _ (by omega) (by rw [happ]; exact hall), happ]

end Reading

/-! ## The header block -/

/-- The lines of a header block. -/
def splitLines : List Char → List (List Char)
  | '\r' :: '\n' :: rest => [] :: splitLines rest
  | c :: rest => (c :: (splitLines rest).headI) :: (splitLines rest).tail
  | [] => [[]]

theorem splitLines_ne_nil (text : List Char) : splitLines text ≠ [] := by
  fun_cases splitLines text <;> simp

/-- A text splits at the first end of a line. -/
theorem splitLines_cut (text : List Char) :
    splitLines text = match cutAt crlf text with
      | some (line, after) => line :: splitLines after
      | none => [text] := by
  fun_induction splitLines text with
  | case1 rest ih =>
    have hcut : cutAt crlf ('\r' :: '\n' :: rest) = some ([], rest) := by
      rw [cutAt, if_pos (by simp [crlf])]
      rfl
    rw [hcut]
  | case2 c rest hne ih =>
    have hcut : cutAt crlf (c :: rest) = (cutAt crlf rest).map fun p => (c :: p.1, p.2) := by
      rw [cutAt, if_neg]
      intro hp
      cases rest with
      | nil => simp [crlf] at hp
      | cons d rest =>
        simp only [crlf, List.isPrefixOf_cons_cons, List.isPrefixOf_nil_left, Bool.and_true,
          Bool.and_eq_true, beq_iff_eq] at hp
        exact hne rest hp.1.symm (by rw [hp.2])
    rw [hcut, ih]
    cases cutAt crlf rest with
    | none => rfl
    | some p => rfl
  | case3 => rfl

/-- The end of a line behind a line is its first. -/
theorem cutAt_crlf_line {line : List Char} (hline : cutAt crlf line = none) (rest : List Char) :
    cutAt crlf (line ++ (crlf ++ rest)) = some (line, rest) := by
  refine cutAt_unique fun b a hb => ?_
  by_contra hlt
  rcases Nat.lt_or_ge line.length (b.length + 2) with hlast | hinside
  · have hlen : line.length = b.length + 1 := by omega
    have hdrop := congrArg (List.drop line.length) hb
    rw [List.drop_left, hlen, List.drop_length_add_append] at hdrop
    simp [crlf] at hdrop
  · obtain ⟨a', ha'⟩ := occurs_of_le hb (by simpa [crlf] using hinside)
    exact cutAt_eq_none hline b a' ha'

/-- Lines that hold no end of a line are what their text splits into. -/
theorem splitLines_join {line : List Char} {lines : List (List Char)}
    (hline : cutAt crlf line = none) (hlines : ∀ l ∈ lines, cutAt crlf l = none) :
    splitLines (line ++ lines.flatMap fun l => crlf ++ l) = line :: lines := by
  induction lines generalizing line with
  | nil =>
    rw [List.flatMap_nil, List.append_nil, splitLines_cut, hline]
  | cons l rest ih =>
    have hcut := cutAt_crlf_line hline (l ++ rest.flatMap fun l => crlf ++ l)
    rw [List.flatMap_cons, List.append_assoc, splitLines_cut, hcut]
    dsimp only
    rw [ih (hlines l List.mem_cons_self) fun x hx => hlines x (List.mem_cons_of_mem _ hx)]

/-- **The loop over the header lines reads every line**, where no line is
empty. -/
theorem parseHeaders_eq : ∀ (fuel : ℕ) (rest : List Char), rest.length ≤ fuel →
    cutAt headerEnd (crlf ++ rest) = none →
      parseHeaders fuel rest = (splitLines rest).flatMap fun l => (parseHeaderLine l).toList := by
  intro fuel
  induction fuel with
  | zero =>
    intro rest hfuel hblank
    have hnil : rest = [] := List.length_eq_zero_iff.1 (by omega)
    rw [hnil]
    rfl
  | succ fuel ih =>
    intro rest hfuel hblank
    rw [parseHeaders, splitLines_cut]
    split_ifs with hnil
    · rw [hnil]
      rfl
    · cases hcut : cutAt crlf rest with
      | none => simp
      | some p =>
        obtain ⟨line, after⟩ := p
        have hrest := cutAt_eq_some hcut
        cases line with
        | nil =>
          refine absurd ?_ (cutAt_eq_none hblank [] after)
          rw [hrest]
          rfl
        | cons d line =>
          dsimp only
          have hlen := congrArg List.length hrest
          simp only [List.length_append, List.length_cons, crlf, List.length_nil] at hlen
          rw [List.flatMap_cons, ih after (by omega)]
          cases hinner : cutAt headerEnd (crlf ++ after) with
          | none => rfl
          | some q =>
            obtain ⟨b, a⟩ := q
            refine absurd ?_ (cutAt_eq_none hblank (crlf ++ (d :: line) ++ b) a)
            rw [hrest, List.append_assoc, List.append_assoc, ← cutAt_eq_some hinner]

/-! ## What a connection is to come to -/

/-- A content length is a string of decimal digits. -/
def IsDigits (value : List Char) : Prop := value ≠ [] ∧ value.all Char.isDigit = true

instance (value : List Char) : Decidable (IsDigits value) := inferInstanceAs (Decidable (_ ∧ _))

/-- The request of a start line and of header lines. -/
def requestOf (line : List Char) (lines : List (List Char)) : Option Request :=
  match parseStartLine line with
  | none => none
  | some (method, path, query) =>
    if method = [] ∨ path = [] then none
    else
      let req : Request :=
        { method := method, path := path, query := query
          headers := lines.flatMap fun l => (parseHeaderLine l).toList }
      some { req with correlationId := (req.header "x-correlation-id".toList).getD [] }

/-- The outcome of a request, `rest` the bytes behind its header block. -/
def outcomeOf (config : HttpServerConfig) (req : Request) (rest : List Char) : Outcome :=
  match req.header "content-length".toList with
  | none => .dispatched req
  | some value =>
    if ¬ IsDigits value ∨ decimal value ≥ 2 ^ 64 then refusal 400 "bad content-length"
    else if decimal value > config.maxBodyBytes then refusal 413 "payload too large"
    else if rest.length < decimal value then refusal 408 "request timeout"
    else .dispatched { req with body := rest.take (decimal value) }

/-- **The outcome by the bytes alone.** -/
def intended (config : HttpServerConfig) (stream : List Char) : Outcome :=
  match cutAt headerEnd stream with
  | none =>
    if stream.length > config.maxHeaderBytes then refusal 431 "request header fields too large"
    else refusal 408 "request timeout"
  | some (head, rest) =>
    if head.length + 4 > config.maxHeaderBytes then
      refusal 431 "request header fields too large"
    else match requestOf (splitLines head).headI (splitLines head).tail with
      | none => refusal 400 "bad request"
      | some req => outcomeOf config req rest

/-- A content length the server takes as it is to: digits, and no fewer than
the bytes that follow, than a read brings, or than a body may have; or
nothing that it reads a number from. -/
def ProperLength (config : HttpServerConfig) (value rest : List Char) : Prop :=
  stoull value = none ∨ IsDigits value ∧ (decimal value = 0 ∨ config.maxBodyBytes < decimal value ∨
    rest.length ≤ decimal value ∨ kReadChunk - 1 ≤ decimal value)

/-- **Where the server comes to it.** The header block does not end in time,
or its start line is bad, or it has a header line and its content length is
proper. -/
def Proper (config : HttpServerConfig) (stream : List Char) : Prop :=
  ∀ head rest, cutAt headerEnd stream = some (head, rest) →
    head.length + 4 ≤ config.maxHeaderBytes →
      ∀ req, requestOf (splitLines head).headI (splitLines head).tail = some req →
        (splitLines head).tail ≠ [] ∧
          ∀ value, req.header "content-length".toList = some value →
            ProperLength config value rest

/-- A string of digits is read as its value. -/
theorem stoull_digits {value : List Char} (h : IsDigits value) :
    stoull value = if decimal value ≥ 2 ^ 64 then none else some (decimal value) := by
  obtain ⟨hne, hall⟩ := h
  cases value with
  | nil => exact absurd rfl hne
  | cons d rest =>
    have hd : d.isDigit = true := by
      rw [List.all_cons, Bool.and_eq_true] at hall
      exact hall.1
    have hspace : (d :: rest).dropWhile isSpace = d :: rest := by
      rw [List.dropWhile_cons_of_neg]
      intro hs
      simp only [isSpace, Bool.or_eq_true, decide_eq_true_eq] at hs
      rcases hs with ((((rfl | rfl) | rfl) | rfl) | rfl) | rfl <;> revert hd <;> decide
    have hsign : readSign (d :: rest) = (false, d :: rest) := by
      unfold readSign
      split
      · next h =>
        cases h
        exact absurd hd (by decide)
      · next h =>
        cases h
        exact absurd hd (by decide)
      · rfl
    have htake : (d :: rest).takeWhile Char.isDigit = d :: rest :=
      List.takeWhile_eq_self_iff.2 (List.all_eq_true.1 hall)
    unfold stoull
    rw [hspace, hsign]
    dsimp only
    rw [htake, if_neg (by simp)]
    rfl

/-! ## The two agree -/

section

variable {config : HttpServerConfig} {head rest buffered line after : List Char} {c : Connection}
variable {req : Request}

theorem requestOf_some {lines : List (List Char)} (h : requestOf line lines = some req) :
    req.body = [] ∧ req.headers = lines.flatMap fun l => (parseHeaderLine l).toList := by
  unfold requestOf at h
  cases hp : parseStartLine line with
  | none =>
    rw [hp] at h
    cases h
  | some p =>
    rw [hp] at h
    dsimp only at h
    split_ifs at h
    obtain rfl := Option.some.inj h
    exact ⟨rfl, rfl⟩

/-- A header block with a header line is read as its lines. -/
theorem handleRequest_cut (hcut : cutAt crlf head = some (line, after))
    (hblank : cutAt headerEnd (crlf ++ after) = none) :
    handleRequest config head buffered c = match requestOf line (splitLines after) with
      | none => refusal 400 "bad request"
      | some req => handleBody config req buffered c := by
  have hparse : parseRequestHead head = match parseStartLine line with
      | none => {}
      | some (method, path, query) =>
        { method := method, path := path, query := query
          headers := (splitLines after).flatMap fun l => (parseHeaderLine l).toList } := by
    have hheaders := parseHeaders_eq _ _ (Nat.le_refl _) hblank
    unfold parseRequestHead
    rw [hcut]
    dsimp only
    rcases parseStartLine line with _ | ⟨method, path, query⟩
    · rfl
    · dsimp only
      rw [hheaders]
  unfold handleRequest requestOf
  rw [hparse]
  cases parseStartLine line with
  | none => rfl
  | some p =>
    dsimp only
    split_ifs <;> rfl

/-- A header block without one is refused. -/
theorem handleRequest_noCut (hcut : cutAt crlf head = none) :
    handleRequest config head buffered c = refusal 400 "bad request" := by
  unfold handleRequest parseRequestHead
  rw [hcut]
  rfl

/-- **The body is what follows**, where the content length is proper. -/
theorem handleBody_eq (hbody : req.body = []) (hrest : buffered ++ c.unread = rest)
    (hlen : buffered.length < kReadChunk)
    (hproper : ∀ value, req.header "content-length".toList = some value →
      ProperLength config value rest) :
    handleBody config req buffered c = outcomeOf config req rest := by
  unfold handleBody contentLengthOf outcomeOf
  cases hcl : req.header "content-length".toList with
  | none => simp
  | some value =>
    dsimp only
    rcases hproper value hcl with hnone | ⟨hdigits, hfits⟩
    · have hbad : ¬ IsDigits value ∨ decimal value ≥ 2 ^ 64 := by
        by_contra hgood
        rw [not_or, not_not] at hgood
        rw [stoull_digits hgood.1, if_neg hgood.2] at hnone
        cases hnone
      rw [hnone, if_pos hbad]
    · rw [stoull_digits hdigits]
      by_cases hlarge : decimal value ≥ 2 ^ 64
      · rw [if_pos hlarge, if_pos (Or.inr hlarge)]
      · rw [if_neg hlarge, if_neg (by simp [hdigits]; omega)]
        dsimp only
        by_cases hmax : decimal value > config.maxBodyBytes
        · rw [if_pos hmax, if_pos hmax]
        · rw [if_neg hmax, if_neg hmax]
          have hrlen := congrArg List.length hrest
          rw [List.length_append] at hrlen
          by_cases hzero : decimal value > 0
          · rw [if_pos hzero]
            have hle : buffered.length ≤ decimal value := by
              unfold kReadChunk at hlen hfits
              omega
            by_cases hshort : buffered.length < decimal value
            · rw [if_pos hshort, readRemainingBody_eq _ _ _ (Nat.le_refl _) hle, hrest]
              split_ifs with hend
              · rfl
              · dsimp only
                rw [if_neg (by rw [List.length_take]; omega)]
            · have heq : buffered.length = decimal value := by omega
              have htake : rest.take (decimal value) = buffered := by
                rw [← hrest, ← heq, List.take_left]
              rw [if_neg hshort, if_neg (by omega), htake]
              dsimp only
              rw [if_neg (by omega)]
          · rw [if_neg hzero, if_neg (by omega)]
            have h0 : decimal value = 0 := by omega
            rw [h0, List.take_zero, ← hbody]

/-- The lines of a header block hold no empty one. -/
theorem cutAt_lines {stream : List Char} (hstream : cutAt headerEnd stream = some (head, rest))
    (hcut : cutAt crlf head = some (line, after)) : cutAt headerEnd (crlf ++ after) = none := by
  cases hblank : cutAt headerEnd (crlf ++ after) with
  | none => rfl
  | some p =>
    obtain ⟨b, a⟩ := p
    have hhead : head = line ++ (b ++ (headerEnd ++ a)) := by
      rw [← cutAt_eq_some hblank]
      exact cutAt_eq_some hcut
    have hle : head.length ≤ (line ++ b).length := by
      refine cutAt_first hstream (a := a ++ (headerEnd ++ rest)) ?_
      rw [cutAt_eq_some hstream]
      nth_rewrite 1 [hhead]
      simp only [List.append_assoc]
    have hlen := congrArg List.length hhead
    simp only [List.length_append, headerEnd, List.length_cons, List.length_nil] at hlen hle
    omega

theorem splitLines_cons (hcut : cutAt crlf head = some (line, after)) :
    (splitLines head).headI = line ∧ (splitLines head).tail = splitLines after := by
  rw [splitLines_cut, hcut]
  exact ⟨rfl, rfl⟩

/-- The first read is at the start of the stream. -/
theorem handleConnection_found {stream : List Char} (sizes : List ℕ)
    (hstream : cutAt headerEnd stream = some (head, rest))
    (hmax : head.length + 4 ≤ config.maxHeaderBytes) :
    ∃ buffered c', handleConnection config ⟨stream, sizes⟩ =
      handleRequest config head buffered c' ∧ buffered ++ c'.unread = rest ∧
        buffered.length < kReadChunk := by
  obtain ⟨buffered, c', hread, hrest, hlen⟩ := readUntilHeaders_found hmax
    (stream.length + 1) [] ⟨stream, sizes⟩ (Nat.le_succ _) rfl hstream
  refine ⟨buffered, c', ?_, hrest, hlen⟩
  have hagain : cutAt headerEnd (head ++ (headerEnd ++ buffered)) = some (head, buffered) := by
    rw [← hrest] at hstream
    exact cutAt_shorten hstream
  unfold handleConnection
  dsimp only
  rw [hread]
  dsimp only
  rw [hagain]

/-- **A proper stream comes to what it is to**, however it is split. -/
theorem handleConnection_eq_intended {stream : List Char} (hproper : Proper config stream)
    (sizes : List ℕ) : handleConnection config ⟨stream, sizes⟩ = intended config stream := by
  unfold intended
  cases hstream : cutAt headerEnd stream with
  | none =>
    unfold handleConnection
    dsimp only
    have hread := readUntilHeaders_none config.maxHeaderBytes
      (stream.length + 1) [] ⟨stream, sizes⟩ (Nat.le_succ _) hstream
    rw [hread]
    dsimp only [List.nil_append]
    split_ifs <;> rfl
  | some p =>
    obtain ⟨head, rest⟩ := p
    dsimp only
    by_cases hmax : head.length + 4 > config.maxHeaderBytes
    · unfold handleConnection
      dsimp only
      have hread := readUntilHeaders_tooLarge hmax (stream.length + 1) [] ⟨stream, sizes⟩
        (Nat.le_succ _) hstream
      rw [hread, if_pos hmax]
    · rw [if_neg hmax]
      have hle : head.length + 4 ≤ config.maxHeaderBytes := by omega
      obtain ⟨buffered, c', hhandle, hrest, hlen⟩ := handleConnection_found sizes hstream hle
      rw [hhandle]
      cases hcut : cutAt crlf head with
      | none =>
        rw [handleRequest_noCut hcut]
        cases hreq : requestOf (splitLines head).headI (splitLines head).tail with
        | none => rfl
        | some req =>
          obtain ⟨htail, -⟩ := hproper head rest hstream (by omega) req hreq
          rw [splitLines_cut, hcut] at htail
          exact absurd rfl htail
      | some q =>
        obtain ⟨line, after⟩ := q
        obtain ⟨hhead, htail⟩ := splitLines_cons hcut
        rw [handleRequest_cut hcut (cutAt_lines hstream hcut), hhead, htail]
        cases hreq : requestOf line (splitLines after) with
        | none => rfl
        | some req =>
          have hfull : requestOf (splitLines head).headI (splitLines head).tail = some req := by
            rw [hhead, htail]
            exact hreq
          exact handleBody_eq (requestOf_some hreq).1 hrest hlen
            (hproper head rest hstream (by omega) req hfull).2

/-! ## Where they part -/

theorem cutAt_take {stream : List Char} (hstream : cutAt headerEnd stream = some (head, rest))
    (m : ℕ) : cutAt headerEnd (head ++ (headerEnd ++ rest.take m)) = some (head, rest.take m) := by
  rw [← List.take_append_drop m rest] at hstream
  exact cutAt_shorten hstream

/-- A stream read byte by byte to before the last byte of the header block's
end, and then with one read that brings that byte and `m` more. -/
theorem readUntilHeaders_leak {stream : List Char} {maxHeaderBytes m : ℕ}
    (hstream : cutAt headerEnd stream = some (head, rest)) (hmax : head.length + 4 ≤ maxHeaderBytes)
    (hm : m + 1 ≤ kReadChunk) : ∀ (k fuel : ℕ) (buffer unread : List Char),
      buffer ++ unread = stream → buffer.length + k = head.length + 3 → unread.length ≤ fuel →
        readUntilHeaders maxHeaderBytes fuel buffer ⟨unread, List.replicate k 1 ++ [m + 1]⟩ =
          .found (head ++ (headerEnd ++ rest.take m)) ⟨rest.drop m, []⟩ := by
  have htext := cutAt_eq_some hstream
  have hnone : ∀ buffer unread : List Char, buffer ++ unread = stream →
      buffer.length ≤ head.length + 3 → cutAt headerEnd buffer = none ∧ unread ≠ [] := by
    intro buffer unread happ hle
    constructor
    · cases hcut : cutAt headerEnd buffer with
      | none => rfl
      | some p =>
        obtain ⟨b, a⟩ := p
        have hmore := cutAt_append hcut unread
        rw [happ, hstream] at hmore
        simp only [Option.some.injEq, Prod.mk.injEq] at hmore
        have hlen := congrArg List.length (cutAt_eq_some hcut)
        rw [← hmore.1] at hlen
        simp only [List.length_append, headerEnd, List.length_cons, List.length_nil] at hlen
        omega
    · intro hnil
      have hlen := congrArg List.length (happ.trans htext)
      rw [hnil] at hlen
      simp only [List.length_append, headerEnd, List.length_cons, List.length_nil] at hlen
      omega
  intro k
  induction k with
  | zero =>
    intro fuel buffer unread happ hlen hfuel
    obtain ⟨hcut, hne⟩ := hnone buffer unread happ (by omega)
    have hpos := List.length_pos_iff.2 hne
    obtain ⟨fuel, rfl⟩ := Nat.exists_eq_add_of_le' (show 1 ≤ fuel by omega)
    rw [readUntilHeaders_succ hcut (by omega) hne]
    have hrecv : Connection.recv ⟨unread, List.replicate 0 1 ++ [m + 1]⟩ kReadChunk =
        (unread.take (m + 1), ⟨unread.drop (m + 1), []⟩) := by
      unfold Connection.recv
      have : min kReadChunk (max (m + 1) 1) = m + 1 := by omega
      rw [List.replicate_zero, List.nil_append]
      dsimp only
      rw [this, List.tail_cons]
    rw [hrecv]
    dsimp only
    have htake : buffer ++ unread.take (m + 1) = head ++ (headerEnd ++ rest.take m) := by
      have h₁ : stream.take (head.length + 3 + (m + 1)) = buffer ++ unread.take (m + 1) := by
        rw [← happ, ← hlen, Nat.add_zero, List.take_length_add_append]
      have h₂ : stream.take (head.length + 3 + (m + 1)) = head ++ (headerEnd ++ rest.take m) := by
        rw [htext, show head.length + 3 + (m + 1) = head.length + (headerEnd.length + m) by
          simp only [headerEnd, List.length_cons, List.length_nil]; omega,
          List.take_length_add_append, List.take_length_add_append]
      rw [← h₁, h₂]
    have hdrop : unread.drop (m + 1) = rest.drop m := by
      have h₁ : stream.drop (head.length + 3 + (m + 1)) = unread.drop (m + 1) := by
        rw [← happ, ← hlen, Nat.add_zero, List.drop_length_add_append]
      have h₂ : stream.drop (head.length + 3 + (m + 1)) = rest.drop m := by
        rw [htext, show head.length + 3 + (m + 1) = head.length + (headerEnd.length + m) by
          simp only [headerEnd, List.length_cons, List.length_nil]; omega,
          List.drop_length_add_append, List.drop_length_add_append]
      rw [← h₁, h₂]
    have hagain := cutAt_take hstream m
    have hlarge : ¬ head.length + 4 > maxHeaderBytes := by omega
    rw [htake, hdrop]
    cases fuel with
    | zero =>
      rw [readUntilHeaders, hagain]
      dsimp only
      rw [if_neg hlarge]
    | succ fuel =>
      rw [readUntilHeaders, hagain]
      dsimp only
      rw [if_neg hlarge]
  | succ k ih =>
    intro fuel buffer unread happ hlen hfuel
    obtain ⟨hcut, hne⟩ := hnone buffer unread happ (by omega)
    have hpos := List.length_pos_iff.2 hne
    obtain ⟨fuel, rfl⟩ := Nat.exists_eq_add_of_le' (show 1 ≤ fuel by omega)
    rw [readUntilHeaders_succ hcut (by omega) hne]
    have hrecv : Connection.recv ⟨unread, List.replicate (k + 1) 1 ++ [m + 1]⟩ kReadChunk =
        (unread.take 1, ⟨unread.drop 1, List.replicate k 1 ++ [m + 1]⟩) := by
      unfold Connection.recv
      rw [List.replicate_succ, List.cons_append]
      rfl
    rw [hrecv]
    refine ih _ _ _ ?_ ?_ ?_
    · rw [List.append_assoc, List.take_append_drop, happ]
    · rw [List.length_append, List.length_take]
      omega
    · rw [List.length_drop]
      omega

/-- The split that leaks. -/
theorem handleConnection_leak {stream : List Char} {m : ℕ}
    (hstream : cutAt headerEnd stream = some (head, rest))
    (hmax : head.length + 4 ≤ config.maxHeaderBytes) (hm : m + 1 ≤ kReadChunk) :
    handleConnection config ⟨stream, List.replicate (head.length + 3) 1 ++ [m + 1]⟩ =
      handleRequest config head (rest.take m) ⟨rest.drop m, []⟩ := by
  have hread := readUntilHeaders_leak hstream hmax hm (head.length + 3) (stream.length + 1) []
    stream rfl (by simp) (Nat.le_succ _)
  unfold handleConnection
  dsimp only
  rw [hread]
  dsimp only
  rw [cutAt_take hstream m]

/-- A content length that is read as a number is not refused as one that is
not. -/
theorem handleBody_ne_badLength {value : List Char} {n : ℕ}
    (hcl : req.header "content-length".toList = some value) (hn : stoull value = some n) :
    handleBody config req buffered c ≠ refusal 400 "bad content-length" := by
  unfold handleBody contentLengthOf
  rw [hcl]
  dsimp only
  rw [hn]
  dsimp only
  generalize (if buffered.length < n then readRemainingBody n c.unread.length buffered c
    else some buffered) = body
  by_cases hmax : n > config.maxBodyBytes
  · rw [if_pos hmax]
    decide
  · rw [if_neg hmax]
    by_cases hpos : n > 0
    · rw [if_pos hpos]
      cases body with
      | none =>
        dsimp only
        decide
      | some body =>
        dsimp only
        split_ifs
        · decide
        · intro h
          cases h
    · rw [if_neg hpos]
      intro h
      cases h

/-- A body with a byte too many is not the body. -/
theorem handleBody_leak {value : List Char} (hcl : req.header "content-length".toList = some value)
    (hdigits : IsDigits value) (hsmall : decimal value < 2 ^ 64) (hpos : 0 < decimal value)
    (hmax : decimal value ≤ config.maxBodyBytes) (hrest : decimal value < rest.length) :
    handleBody config req (rest.take (decimal value + 1)) c ≠ outcomeOf config req rest := by
  have hlen : (rest.take (decimal value + 1)).length = decimal value + 1 := by
    rw [List.length_take]
    omega
  have hout : outcomeOf config req rest =
      .dispatched { req with body := rest.take (decimal value) } := by
    unfold outcomeOf
    rw [hcl]
    dsimp only
    rw [if_neg (by simp [hdigits]; omega), if_neg (by omega), if_neg (by omega)]
  have hin : handleBody config req (rest.take (decimal value + 1)) c =
      if decimal value + 1 > config.maxBodyBytes then refusal 413 "payload too large"
      else .dispatched { req with body := rest.take (decimal value + 1) } := by
    unfold handleBody contentLengthOf
    rw [hcl]
    dsimp only
    rw [stoull_digits hdigits, if_neg (by omega)]
    dsimp only
    rw [if_neg (by omega), if_pos hpos, hlen, if_neg (by omega)]
    dsimp only
    rw [hlen]
  rw [hin, hout]
  split_ifs
  · intro h
    cases h
  · intro h
    have hbody := congrArg (fun o => match o with
      | Outcome.dispatched r => r.body.length
      | _ => 0) h
    dsimp only at hbody
    rw [List.length_take, List.length_take] at hbody
    omega

theorem kReadChunk_lt : kReadChunk < 2 ^ 64 := by decide

/-- **A stream that comes to what it is to for every split is proper.** -/
theorem proper_of_forall {stream : List Char}
    (h : ∀ sizes, handleConnection config ⟨stream, sizes⟩ = intended config stream) :
    Proper config stream := by
  intro head rest hstream hmax req hreq
  have hintended : intended config stream = outcomeOf config req rest := by
    unfold intended
    rw [hstream]
    dsimp only
    rw [if_neg (by omega), hreq]
  cases hcut : cutAt crlf head with
  | none =>
    obtain ⟨buffered, c', hhandle, -, -⟩ := handleConnection_found [] hstream hmax
    have hall := h []
    rw [hhandle, handleRequest_noCut hcut, hintended] at hall
    rw [splitLines_cut, hcut] at hreq
    have hcl : req.header "content-length".toList = none := by
      unfold Request.header
      rw [(requestOf_some hreq).2]
      rfl
    unfold outcomeOf at hall
    rw [hcl] at hall
    cases hall
  | some q =>
    obtain ⟨line, after⟩ := q
    obtain ⟨hhead, htail⟩ := splitLines_cons hcut
    refine ⟨by rw [htail]; exact splitLines_ne_nil after, fun value hcl => ?_⟩
    rw [hhead, htail] at hreq
    by_contra hbad
    unfold ProperLength at hbad
    rw [not_or, not_and] at hbad
    obtain ⟨n, hn⟩ := Option.ne_none_iff_exists'.1 hbad.1
    by_cases hdigits : IsDigits value
    · have hfits := hbad.2 hdigits
      have hread := stoull_digits hdigits
      rw [hn] at hread
      split_ifs at hread with hlarge
      have hm : decimal value + 1 + 1 ≤ kReadChunk := by
        unfold kReadChunk at hfits ⊢
        omega
      have hall := h (List.replicate (head.length + 3) 1 ++ [decimal value + 1 + 1])
      rw [handleConnection_leak hstream hmax hm,
        handleRequest_cut hcut (cutAt_lines hstream hcut), hreq, hintended] at hall
      exact handleBody_leak hcl hdigits (by omega) (by omega) (by omega) (by omega) hall
    · obtain ⟨buffered, c', hhandle, -, -⟩ := handleConnection_found [] hstream hmax
      have hall := h []
      rw [hhandle, handleRequest_cut hcut (cutAt_lines hstream hcut), hreq, hintended] at hall
      refine handleBody_ne_badLength hcl hn (hall.trans ?_)
      unfold outcomeOf
      rw [hcl]
      dsimp only
      rw [if_pos (Or.inl hdigits)]

/-! ## The request of a message -/

/-- A text cut at a character it does not hold before. -/
theorem cutAt_char {x : Char} {before after : List Char} (h : x ∉ before) :
    cutAt [x] (before ++ ([x] ++ after)) = some (before, after) := by
  refine cutAt_unique fun b a hb => ?_
  by_contra hlt
  have hmem : x ∈ before := by
    have hget := congrArg (fun l => l[b.length]?) hb
    simp only [List.getElem?_append_right (Nat.le_refl b.length), Nat.sub_self] at hget
    rw [List.getElem?_append_left (by omega)] at hget
    exact List.mem_of_getElem? hget
  exact h hmem

theorem cutAt_char_none {x : Char} {text : List Char} (h : x ∉ text) : cutAt [x] text = none := by
  cases hcut : cutAt [x] text with
  | none => rfl
  | some p =>
    obtain ⟨b, a⟩ := p
    refine absurd ?_ h
    rw [cutAt_eq_some hcut]
    simp

/-- A target: a path, and a query behind a question mark. -/
def targetText (path : List Char) : Option (List Char) → List Char
  | none => path
  | some query => path ++ (['?'] ++ query)

/-- A start line. -/
def startLineText (method target version : List Char) : List Char :=
  method ++ ([' '] ++ (target ++ ([' '] ++ version)))

/-- A header line. -/
def headerLineText (field : List Char × List Char) : List Char := field.1 ++ ([':'] ++ field.2)

/-- The header a header line gives: its name in lower case, its value without
the blanks around it. -/
def headerOf (field : List Char × List Char) : Header :=
  ⟨lowerAscii field.1, ((field.2.dropWhile isBlank).reverse.dropWhile isBlank).reverse⟩

theorem parseStartLine_text {method path version : List Char} {query : Option (List Char)}
    (hm : ' ' ∉ method) (ht : ' ' ∉ targetText path query) (hp : '?' ∉ path) :
    parseStartLine (startLineText method (targetText path query) version) =
      some (method, path, query.getD []) := by
  unfold parseStartLine startLineText
  rw [cutAt_char hm]
  dsimp only
  rw [cutAt_char ht]
  dsimp only
  cases query with
  | none =>
    rw [targetText, cutAt_char_none hp]
    rfl
  | some query =>
    rw [targetText, cutAt_char hp]
    rfl

theorem parseHeaderLine_text {field : List Char × List Char} (h : ':' ∉ field.1) :
    parseHeaderLine (headerLineText field) = some (headerOf field) := by
  unfold parseHeaderLine headerLineText
  rw [cutAt_char h]
  rfl

/-- **The request of a message** is its method, path, query and headers. -/
theorem requestOf_text {method path version : List Char} {query : Option (List Char)}
    {fields : List (List Char × List Char)} (hmethod : method ≠ []) (hpath : path ≠ [])
    (hm : ' ' ∉ method) (ht : ' ' ∉ targetText path query) (hp : '?' ∉ path)
    (hf : ∀ f ∈ fields, ':' ∉ f.1) :
    requestOf (startLineText method (targetText path query) version)
        (fields.map headerLineText) =
      some { method := method, path := path, query := query.getD []
             headers := fields.map headerOf
             correlationId := (((fields.map headerOf).find? fun h =>
               h.name = "x-correlation-id".toList).map Header.value).getD [] } := by
  have hheaders : (fields.map headerLineText).flatMap (fun l => (parseHeaderLine l).toList) =
      fields.map headerOf := by
    induction fields with
    | nil => rfl
    | cons f rest ih =>
      rw [List.map_cons, List.flatMap_cons, parseHeaderLine_text (hf f List.mem_cons_self),
        ih fun g hg => hf g (List.mem_cons_of_mem _ hg)]
      rfl
  unfold requestOf
  rw [parseStartLine_text hm ht hp]
  dsimp only
  rw [if_neg (by simp [hmethod, hpath]), hheaders]
  rfl

/-- **What the server does with a connection.** It comes to the outcome by
the bytes alone, for every way to split them, exactly on the proper streams;
and that outcome, for a start line with header lines that end in time, is
the outcome of the request with that method, path and query and those
headers. -/
theorem connection_contract (config : HttpServerConfig) :
    (∀ stream, (∀ sizes, handleConnection config ⟨stream, sizes⟩ = intended config stream) ↔
      Proper config stream) ∧
    ∀ (method path version : List Char) (query : Option (List Char))
      (fields : List (List Char × List Char)) (head rest : List Char), method ≠ [] → path ≠ [] →
      ' ' ∉ method → ' ' ∉ targetText path query → '?' ∉ path → (∀ f ∈ fields, ':' ∉ f.1) →
      cutAt crlf (startLineText method (targetText path query) version) = none →
      (∀ f ∈ fields, cutAt crlf (headerLineText f) = none) →
      head = startLineText method (targetText path query) version ++
        (fields.map headerLineText).flatMap (fun l => crlf ++ l) →
      head.length + 4 ≤ config.maxHeaderBytes →
      cutAt headerEnd (head ++ (headerEnd ++ rest)) = some (head, rest) →
      intended config (head ++ (headerEnd ++ rest)) = outcomeOf config
        { method := method, path := path, query := query.getD []
          headers := fields.map headerOf
          correlationId := (((fields.map headerOf).find? fun h =>
            h.name = "x-correlation-id".toList).map Header.value).getD [] } rest := by
  refine ⟨fun stream => ⟨proper_of_forall, handleConnection_eq_intended⟩, ?_⟩
  intro method path version query fields head rest hmethod hpath hm ht hp hf hline hlines hhead
    hmax hcut
  have hsplit : splitLines head = startLineText method (targetText path query) version ::
      fields.map headerLineText := by
    rw [hhead]
    refine splitLines_join hline fun l hl => ?_
    obtain ⟨f, hmem, rfl⟩ := List.mem_map.1 hl
    exact hlines f hmem
  unfold intended
  rw [hcut]
  dsimp only
  rw [if_neg (by omega), hsplit, List.headI_cons, List.tail_cons,
    requestOf_text hmethod hpath hm ht hp hf]

theorem connection_contract_sample :
    (∀ sizes, handleConnection {} ⟨"GET /a?b HTTP/1.1\r\nHost:  c \r\n\r\n".toList, sizes⟩ =
      .dispatched { method := "GET".toList, path := "/a".toList, query := "b".toList
                    headers := [⟨"host".toList, "c".toList⟩] }) := by
  have hmessage := (connection_contract {}).2 "GET".toList "/a".toList "HTTP/1.1".toList
    (some "b".toList) [("Host".toList, "  c ".toList)] "GET /a?b HTTP/1.1\r\nHost:  c ".toList []
    (by decide +kernel) (by decide +kernel) (by decide +kernel) (by decide +kernel) (by decide +kernel) (by decide +kernel) (by decide +kernel) (by decide +kernel)
    (by decide +kernel) (by decide +kernel) (by decide +kernel)
  have hproper : Proper {} "GET /a?b HTTP/1.1\r\nHost:  c \r\n\r\n".toList := by
    intro head rest hcut hmax req hreq
    have hhead : cutAt headerEnd "GET /a?b HTTP/1.1\r\nHost:  c \r\n\r\n".toList =
        some ("GET /a?b HTTP/1.1\r\nHost:  c ".toList, []) := by decide +kernel
    rw [hhead] at hcut
    cases hcut
    refine ⟨by decide +kernel, fun value hcl => ?_⟩
    have hnone : (requestOf (splitLines "GET /a?b HTTP/1.1\r\nHost:  c ".toList).headI
        (splitLines "GET /a?b HTTP/1.1\r\nHost:  c ".toList).tail).bind
          (fun r => r.header "content-length".toList) = none := by decide +kernel
    rw [hreq] at hnone
    rw [Option.bind_some, hcl] at hnone
    cases hnone
  intro sizes
  exact (((connection_contract {}).1 _).2 hproper sizes).trans hmessage

/-- **What goes wrong elsewhere.** A request without header lines is refused;
bytes behind the body become part of it, or do not, as the reads fall; and a
content length that only starts with a digit is taken. -/
theorem connection_not_intended :
    (handleConnection {} ⟨"GET /health HTTP/1.1\r\n\r\n".toList, []⟩ =
        refusal 400 "bad request" ∧
      intended {} "GET /health HTTP/1.1\r\n\r\n".toList =
        .dispatched { method := "GET".toList, path := "/health".toList }) ∧
    handleConnection {} ⟨"POST / HTTP/1.1\r\ncontent-length: 1\r\n\r\nab".toList, []⟩ ≠
      handleConnection {} ⟨"POST / HTTP/1.1\r\ncontent-length: 1\r\n\r\nab".toList, [38]⟩ ∧
    handleConnection {} ⟨"POST / HTTP/1.1\r\ncontent-length: 1x\r\n\r\na".toList, []⟩ ≠
      refusal 400 "bad content-length" := by
  refine ⟨⟨by decide +kernel, by decide +kernel⟩, by decide +kernel, by decide +kernel⟩

end

end Http

end Tensorplate
