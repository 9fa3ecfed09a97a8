import RustyTime.Properties.Control
import RustyTime.Spec.Gateway

/-!
# What passes through the gateway's door

* `split_head` — a head is cut into its lines, whatever follows it
* `readHeaders_head` — what the header loop makes of them
* `fetch_respond` — a browser reads what was answered
* `handle_post` — a page's post is answered as a datagram would be
* `gateway_door` — what can pass at all
-/

namespace RustyTime.Gateway

open Infra Control Store

/-! ## Bytes of lines -/

theorem asBytes_eq (s : String) : asBytes s = s.toList.flatMap String.utf8EncodeChar := by
  unfold asBytes
  rw [← String.ofList_toList (s := s), String.toByteArray_ofList, List.utf8Encode,
    List.toList_data_toByteArray, String.ofList_toList]

theorem asBytes_append (s t : String) : asBytes (s ++ t) = asBytes s ++ asBytes t := by
  rw [asBytes_eq, asBytes_eq, asBytes_eq, String.toList_append, List.flatMap_append]

theorem ofNat_ne_lf {n : Nat} (hlow : 128 ≤ n) (hhigh : n < 256) :
    (10 : UInt8) ≠ UInt8.ofNat n := by
  intro heq
  have hnat := congrArg UInt8.toNat heq
  rw [UInt8.toNat_ofNat', Nat.mod_eq_of_lt hhigh] at hnat
  have hten : (10 : UInt8).toNat = 10 := rfl
  omega

/-- Only a line feed has the byte of one. -/
theorem lf_mem_utf8EncodeChar {c : Char} (h : 10 ∈ String.utf8EncodeChar c) : c = '\n' := by
  unfold String.utf8EncodeChar at h
  dsimp only at h
  split at h
  · next hle =>
    have heq := congrArg UInt8.toNat (List.mem_singleton.mp h)
    rw [UInt8.toNat_ofNat', Nat.mod_eq_of_lt (by omega)] at heq
    exact Char.toNat_inj.mp heq.symm
  -- each octet of a longer encoding is 128 or more
  · refine absurd h ?_
    split
    · simp only [List.mem_cons, List.not_mem_nil, or_false, not_or]
      exact ⟨ofNat_ne_lf (by omega) (by omega), ofNat_ne_lf (by omega) (by omega)⟩
    · split
      · simp only [List.mem_cons, List.not_mem_nil, or_false, not_or]
        exact ⟨ofNat_ne_lf (by omega) (by omega), ofNat_ne_lf (by omega) (by omega),
          ofNat_ne_lf (by omega) (by omega)⟩
      · simp only [List.mem_cons, List.not_mem_nil, or_false, not_or]
        exact ⟨ofNat_ne_lf (by omega) (by omega), ofNat_ne_lf (by omega) (by omega),
          ofNat_ne_lf (by omega) (by omega), ofNat_ne_lf (by omega) (by omega)⟩

theorem lf_notMem_asBytes {s : String} (h : '\n' ∉ s.toList) : 10 ∉ asBytes s := by
  rw [asBytes_eq, List.mem_flatMap]
  rintro ⟨c, hc, hlf⟩
  exact h (lf_mem_utf8EncodeChar hlf ▸ hc)

/-! ## Heads -/

/-- A line of a head, without its line feed. -/
def lineBytes (line : String) : List UInt8 := asBytes line ++ [13]

theorem asBytes_join (lines : List String) :
    asBytes (String.join (lines.map (· ++ "\r\n"))) =
      ((lines.map lineBytes).map (· ++ [10])).flatten := by
  induction lines with
  | nil => rfl
  | cons line lines ih =>
    have hend : asBytes "\r\n" = [13] ++ [10] := rfl
    rw [List.map_cons, String.join_cons, asBytes_append, asBytes_append, ih, hend, List.map_cons,
      List.map_cons, List.flatten_cons, lineBytes]
    simp only [List.append_assoc]

theorem lf_notMem_lineBytes {line : String} (h : '\n' ∉ line.toList) : 10 ∉ lineBytes line := by
  rw [lineBytes, List.mem_append, not_or]
  exact ⟨lf_notMem_asBytes h, by decide⟩

theorem lf_notMem_fieldText {field : String × String} (h : PlainField field) :
    '\n' ∉ (fieldText field).toList := by
  obtain ⟨hname, -, hvalue⟩ := h
  simp [fieldText, hname, hvalue]

/-- **A head is cut into its lines**, whatever follows it. -/
theorem split_head {start : String} {fields : List (String × String)} (hstart : '\n' ∉ start.toList)
    (hfields : ∀ field ∈ fields, PlainField field) (rest : List UInt8) :
    Lines.split 10 (asBytes (headText start fields) ++ rest) =
      ((headLines start fields).map lineBytes).map (· ++ [10]) ++ Lines.split 10 rest := by
  have hlines : ∀ line ∈ headLines start fields, '\n' ∉ line.toList := by
    unfold headLines
    simp only [List.cons_append, List.mem_cons, List.mem_append, List.mem_map, List.not_mem_nil,
      or_false]
    rintro line (rfl | ⟨field, hfield, rfl⟩ | rfl)
    · exact hstart
    · exact lf_notMem_fieldText (hfields field hfield)
    · decide
  unfold headText
  rw [asBytes_join]
  refine Lines.split_flatten 10 (fun line hline => ?_) rest
  obtain ⟨text, htext, rfl⟩ := List.mem_map.mp hline
  exact lf_notMem_lineBytes (hlines text htext)

/-! ## Reading a head -/

/-- A line of a head is read. -/
theorem readLine_lineBytes (line : String) (lines : List (List UInt8)) (ends : Bool) :
    (Reader.mk ((lineBytes line ++ [10]) :: lines) ends).readLine =
      some (line ++ "\r\n", ⟨lines, ends⟩) := by
  have hbytes : lineBytes line ++ [10] = asBytes (line ++ "\r\n") := by
    rw [asBytes_append, lineBytes, List.append_assoc]
    rfl
  unfold Reader.readLine
  dsimp only
  rw [if_pos (.inl List.getLast?_concat), hbytes, fromUtf8_asBytes]
  rfl

theorem toList_trimEnd (s : String) : (trimEnd s).toList = s.toList.rdropWhile isWhitespace := by
  rw [trimEnd, String.toList_ofList]
  rfl

/-- White space is trimmed off the end up to a character that is none. -/
theorem rdropWhile_append_cons {p : Char → Bool} {c : Char} (hc : p c = false) (xs ys : List Char) :
    (xs ++ c :: ys).rdropWhile p = xs ++ c :: ys.rdropWhile p := by
  have hkept : (c :: xs.reverse).dropWhile p = c :: xs.reverse :=
    List.dropWhile_cons_of_neg (by simp [hc])
  unfold List.rdropWhile
  rw [List.reverse_append, List.reverse_cons, List.append_assoc, List.singleton_append,
    List.dropWhile_append, hkept]
  split
  · next hempty =>
    rw [List.isEmpty_iff.mp hempty]
    simp
  · simp

theorem rdropWhile_append_of_all {p : Char → Bool} (xs : List Char) {ys : List Char}
    (hys : ∀ c ∈ ys, p c = true) : (xs ++ ys).rdropWhile p = xs.rdropWhile p := by
  unfold List.rdropWhile
  rw [List.reverse_append, List.dropWhile_append_of_pos fun c hc => hys c (List.mem_reverse.mp hc)]

/-- What is trimmed off the end first changes nothing. -/
theorem trim_trimEnd (s : String) : trim (trimEnd s) = trim s := by
  obtain ⟨ys, hys, hsplit⟩ : ∃ ys, (∀ c ∈ ys, isWhitespace c = true) ∧
      s.toList = s.toList.rdropWhile isWhitespace ++ ys :=
    ⟨s.toList.rtakeWhile isWhitespace, fun c hc => List.mem_rtakeWhile_imp hc,
      (List.rdropWhile_append_rtakeWhile).symm⟩
  rw [← String.toList_inj, toList_trim, toList_trim, toList_trimEnd]
  conv_rhs => rw [hsplit]
  rw [List.dropWhile_append]
  split
  · next hempty =>
    rw [List.isEmpty_iff.mp hempty, List.dropWhile_eq_nil_iff.mpr hys]
  · rw [rdropWhile_append_of_all _ hys]

/-- **A field is read**, whatever white space its value ends in. -/
theorem headerLength_field {field : String × String} (h : PlainField field) (contentLength : Nat) :
    trimEnd (fieldText field ++ "\r\n") ≠ "" ∧
      headerLength (trimEnd (fieldText field ++ "\r\n")) contentLength =
        if givesLength field then (parseUsize (trim field.2)).getD 0 else contentLength := by
  obtain ⟨name, value⟩ := field
  obtain ⟨-, hname, -⟩ := h
  have hlist : (trimEnd (fieldText (name, value) ++ "\r\n")).toList =
      name.toList ++ ':' :: (trimEnd value).toList := by
    have htext : (fieldText (name, value) ++ "\r\n").toList =
        name.toList ++ ':' :: (value.toList ++ ['\r', '\n']) := by
      simp [fieldText]
    rw [toList_trimEnd, htext, rdropWhile_append_cons rfl, toList_trimEnd,
      rdropWhile_append_of_all _ (by simp [isWhitespace])]
  have hsplit : splitOnce ':' (trimEnd (fieldText (name, value) ++ "\r\n")) =
      some (name, trimEnd value) := by
    have hne : ∀ c ∈ name.toList, decide (c ≠ ':') = true := by
      intro c hc
      exact decide_eq_true fun heq => hname (heq ▸ hc)
    unfold splitOnce
    rw [hlist, if_pos (by simp), List.takeWhile_append_of_pos hne, List.dropWhile_append_of_pos hne]
    simp
  constructor
  · intro hempty
    rw [hempty] at hlist
    simp at hlist
  · unfold headerLength givesLength
    rw [hsplit]
    dsimp only
    rw [trim_trimEnd]
    simp

/-- What the fields of a head say of the length. The last one decides. -/
def statedLength (fields : List (String × String)) (contentLength : Nat) : Nat :=
  fields.foldl (fun length field =>
    if givesLength field then (parseUsize (trim field.2)).getD 0 else length) contentLength

/-- **The header loop reads what the fields say.** -/
theorem readHeaders_head {fields : List (String × String)}
    (hfields : ∀ field ∈ fields, PlainField field) (ends : Bool) (contentLength : Nat)
    (lines : List (List UInt8)) :
    readHeaders ends contentLength
        (((fields.map fieldText ++ [""]).map lineBytes).map (· ++ [10]) ++ lines) =
      some (statedLength fields contentLength, lines) := by
  induction fields generalizing contentLength with
  | nil =>
    have hread := readLine_lineBytes "" lines ends
    have hblank : trimEnd ("" ++ "\r\n") = "" := by
      rw [← String.toList_inj, toList_trimEnd]
      decide
    simp only [List.map_nil, List.nil_append, List.map_cons, List.cons_append, readHeaders, hread,
      Option.bind_eq_bind, Option.bind_some]
    rw [if_pos hblank]
    rfl
  | cons field fields ih =>
    -- the line is not blank: its name or its colon is left
    obtain ⟨hne, hlength⟩ := headerLength_field (hfields field List.mem_cons_self) contentLength
    have hread := readLine_lineBytes (fieldText field)
      (((fields.map fieldText ++ [""]).map lineBytes).map (· ++ [10]) ++ lines) ends
    rw [List.map_cons, List.cons_append, List.map_cons, List.map_cons, List.cons_append]
    simp only [readHeaders, hread, Option.bind_eq_bind, Option.bind_some]
    rw [if_neg hne, hlength, ih fun f hf => hfields f (List.mem_cons_of_mem _ hf)]
    rfl

/-- A proper post says the length of its body. -/
theorem Post.Proper.statedLength {p : Post} (h : p.Proper) :
    statedLength p.fields 0 = p.body.length := by
  -- the last field that gives a length decides, and they agree
  have hall : ∀ (fields : List (String × String)) (n : Nat),
      (∀ field ∈ fields, givesLength field → parseUsize (trim field.2) = some p.body.length) →
        (n = p.body.length ∨ ∃ field ∈ fields, givesLength field) →
          Gateway.statedLength fields n = p.body.length := by
    intro fields
    induction fields with
    | nil =>
      intro n _ hn
      exact hn.resolve_right (by simp)
    | cons field fields ih =>
      intro n hlength hn
      refine ih _ (fun f hf => hlength f (List.mem_cons_of_mem _ hf)) ?_
      by_cases hgives : givesLength field
      · left
        dsimp only
        rw [if_pos hgives, hlength field List.mem_cons_self hgives]
        rfl
      · dsimp only
        rw [if_neg hgives]
        refine hn.imp_right fun ⟨f, hf, hgiven⟩ => ⟨f, ?_, hgiven⟩
        exact (List.mem_cons.mp hf).resolve_left fun heq => hgives (heq ▸ hgiven)
  exact hall p.fields 0 h.length (.inr h.given)

/-- The words of a start line. -/
theorem splitWhitespace_start {first second : String} (hfirst : OneWord first)
    (hsecond : OneWord second) (rest : String) :
    splitWhitespace (first ++ " " ++ second ++ " " ++ rest) =
      first :: second :: splitWhitespace rest := by
  have hlist : (first ++ " " ++ second ++ " " ++ rest).toList =
      first.toList ++ ' ' :: (second.toList ++ ' ' :: rest.toList) := by simp
  have hkept : ∀ {word : String}, OneWord word →
      (([word.toList].filter fun piece => !piece.isEmpty).map String.ofList) = [word] := by
    intro word hword
    have hne : word.toList ≠ [] := fun hnil => hword.1 (String.toList_inj.mp hnil)
    rw [List.filter_cons_of_pos (by simp [hne]), List.filter_nil, List.map_singleton,
      String.ofList_toList]
  unfold splitWhitespace
  rw [hlist, List.splitOnP_append_cons _ _ (by decide), List.splitOnP_eq_singleton hfirst.2,
    List.splitOnP_append_cons _ _ (by decide), List.splitOnP_eq_singleton hsecond.2,
    List.filter_append, List.map_append, hkept hfirst, List.filter_append, List.map_append,
    hkept hsecond]
  rfl

/-! ## An answer -/

theorem lf_notMem_toDigits (n : Nat) : '\n' ∉ Nat.toDigits 10 n := fun hmem => by
  cases Nat.isDigit_of_mem_toDigits (by decide) (by decide) hmem

/-- A value is read without the blank before it. -/
theorem trim_oneWord {s : String} (h : OneWord s) : trim (" " ++ s) = s := by
  have hlist : (" " ++ s).toList = ' ' :: s.toList := by simp
  have hkept : ∀ {cs : List Char}, (∀ c ∈ cs, isWhitespace c = false) →
      cs.dropWhile isWhitespace = cs := by
    intro cs hcs
    cases cs with
    | nil => rfl
    | cons c cs => exact List.dropWhile_cons_of_neg (by simp [hcs c List.mem_cons_self])
  rw [← String.toList_inj, toList_trim, hlist, List.dropWhile_cons_of_pos (by decide), hkept h.2,
    List.rdropWhile, hkept fun c hc => h.2 c (List.mem_reverse.mp hc), List.reverse_reverse]

/-- A length is read back. -/
theorem parseUsize_length {n : Nat} (h : n < 2 ^ 64) :
    parseUsize (trim (" " ++ toString n)) = some n := by
  rw [trim_oneWord (oneWord_toString n), parseUsize_toString h]

theorem Post.plain_proper {body : List UInt8} (h : body.length < 2 ^ 64) :
    (Post.plain body).Proper where
  path := List.prefix_rfl
  word := by simp [Post.plain, isWhitespace]
  version := show '\n' ∉ "HTTP/1.1".toList by decide
  fields := by simp [Post.plain, PlainField, lf_notMem_toDigits]
  length := by
    intro field hfield _
    obtain rfl := List.mem_singleton.mp hfield
    exact parseUsize_length h
  given := ⟨_, List.mem_singleton_self _, by
    have hname : toAsciiLowercase "Content-Length" = "content-length" := by decide
    exact decide_eq_true hname⟩

section

variable {K R : Type} [DecidableEq K] [Field R] [LinearOrder R] [FloorRing R] {aead : Aead}

/-- A body that is there is answered. -/
theorem timeExchange_eq {r : Reader} {body : List UInt8} (hne : body ≠ [])
    (hlen : body.length ≤ maxBodyBytes) (hread : r.readExact body.length = some body)
    (peer : SocketAddr K) (guard : ServerState K R) {s : Surroundings R} {ns : Int}
    (hns : s.wallNs = some ns) :
    timeExchange aead r body.length peer (.healthy guard) s =
      answered aead body peer ns guard s := by
  have hlen' : ¬(body.length = 0 ∨ maxBodyBytes < body.length) := by
    rw [List.length_eq_zero_iff]
    exact fun hbad => hbad.elim hne (Nat.not_lt.mpr hlen)
  unfold timeExchange
  rw [if_neg hlen', hread]
  dsimp only
  rw [hns]
  unfold answered buildReply written
  dsimp only
  generalize buildReplyIn aead body peer _ guard s.clock s.random = out
  obtain ⟨guard', reply⟩ := out
  cases reply with
  | some reply => rfl
  | none => rfl

/-- A head that fits is read, and what follows it is left. -/
theorem handle_head {start : String} {fields : List (String × String)} {stream : Incoming K}
    {rest : List UInt8} (hstart : '\n' ∉ start.toList)
    (hfields : ∀ field ∈ fields, PlainField field)
    (hstream : stream.bytes.take maxHeaderBytes = asBytes (headText start fields) ++ rest)
    (state : Mutex (ServerState K R)) (s : Surroundings R) :
    handle aead stream state s =
      let parts := splitWhitespace (start ++ "\r\n")
      let (state, written) := route aead (parts[0]?.getD "") (parts[1]?.getD "/")
        ⟨Lines.split 10 rest, stream.closed || maxHeaderBytes ≤ stream.bytes.length⟩
        (statedLength fields 0) stream.peer state s
      (state, some written) := by
  have hline := readLine_lineBytes start
    (((fields.map fieldText ++ [""]).map lineBytes).map (· ++ [10]) ++ Lines.split 10 rest)
    (stream.closed || maxHeaderBytes ≤ stream.bytes.length)
  have hreader : Reader.new stream = ⟨(lineBytes start ++ [10]) ::
      (((fields.map fieldText ++ [""]).map lineBytes).map (· ++ [10]) ++ Lines.split 10 rest),
      stream.closed || maxHeaderBytes ≤ stream.bytes.length⟩ := by
    unfold Reader.new
    rw [hstream, split_head hstart hfields]
    rfl
  have hne : start ++ "\r\n" ≠ "" := by
    intro hempty
    have hlist := congrArg String.toList hempty
    simp at hlist
  unfold handle
  rw [hreader, hline]
  dsimp only
  rw [if_neg hne, readHeaders_head hfields]

/-- A proper post comes to the time exchange, with as much of its body as the reader takes. -/
theorem handle_proper {p : Post} (h : p.Proper) {stream : Incoming K} {rest : List UInt8}
    (hstream : stream.bytes.take maxHeaderBytes = asBytes p.head ++ rest)
    (state : Mutex (ServerState K R)) (s : Surroundings R) :
    handle aead stream state s =
      let (state, written) := timeExchange aead
        ⟨Lines.split 10 rest, stream.closed || maxHeaderBytes ≤ stream.bytes.length⟩
        p.body.length stream.peer state s
      (state, some written) := by
  have hpath : OneWord p.path := by
    refine ⟨fun hempty => ?_, h.word⟩
    have hle := h.path.length_le
    rw [hempty] at hle
    exact absurd hle (by decide)
  have hlf : ∀ {word : String}, (∀ c ∈ word.toList, isWhitespace c = false) → '\n' ∉ word.toList :=
    fun hword hmem => absurd (hword _ hmem) (by decide)
  have hstart : '\n' ∉ ("POST" ++ " " ++ p.path ++ " " ++ p.version).toList := by
    simp [hlf h.word, h.version]
  have hwords : splitWhitespace ("POST" ++ " " ++ p.path ++ " " ++ p.version ++ "\r\n") =
      "POST" :: p.path :: splitWhitespace (p.version ++ "\r\n") := by
    rw [String.append_assoc]
    exact splitWhitespace_start ⟨by decide, by simp [isWhitespace]⟩ hpath _
  rw [handle_head hstart h.fields hstream, hwords]
  dsimp only [List.getElem?_cons_zero, List.getElem?_cons_succ, Option.getD_some]
  unfold route
  rw [if_neg (by decide), if_pos ⟨rfl, h.path⟩, h.statedLength]

/-- **A page's post is answered as a datagram would be**, if it fits in what the gateway reads. -/
theorem handle_post {p : Post} (h : p.Proper) (hfits : p.Fits) {stream : Incoming K}
    (hstream : p.text <+: stream.bytes) (guard : ServerState K R) {s : Surroundings R} {ns : Int}
    (hns : s.wallNs = some ns) :
    handle aead stream (.healthy guard) s =
      ((answered aead p.body stream.peer ns guard s).1,
        some (answered aead p.body stream.peer ns guard s).2) := by
  obtain ⟨more, hmore⟩ := hstream
  have htake : stream.bytes.take maxHeaderBytes = asBytes p.head ++
      (p.body ++ more.take (maxHeaderBytes - p.text.length)) := by
    rw [← hmore, List.take_append, List.take_of_length_le hfits.text, Post.text, List.append_assoc]
  have hread : (Reader.mk (Lines.split 10 (p.body ++ more.take (maxHeaderBytes - p.text.length)))
      (stream.closed || maxHeaderBytes ≤ stream.bytes.length)).readExact p.body.length =
        some p.body := by
    unfold Reader.readExact
    rw [Lines.flatten_split, if_pos (by simp), List.take_left]
  rw [handle_proper h htake, timeExchange_eq hfits.ne hfits.body hread stream.peer guard hns]

/-- If it does not fit, the server never hears of it. -/
theorem handle_post_else {p : Post} (h : p.Proper) (hfits : ¬p.Fits)
    (hhead : (asBytes p.head).length ≤ maxHeaderBytes) {stream : Incoming K}
    (hstream : stream.bytes = p.text) (state : Mutex (ServerState K R)) (s : Surroundings R) :
    ∃ message, handle aead stream state s = (state, some (respond 400 "text/plain" message)) := by
  have htake : stream.bytes.take maxHeaderBytes = asBytes p.head ++
      p.body.take (maxHeaderBytes - (asBytes p.head).length) := by
    rw [hstream, Post.text, List.take_append, List.take_of_length_le hhead]
  have hrefused : ∃ message, timeExchange aead
      ⟨Lines.split 10 (p.body.take (maxHeaderBytes - (asBytes p.head).length)),
        stream.closed || maxHeaderBytes ≤ stream.bytes.length⟩ p.body.length stream.peer state s =
      (state, respond 400 "text/plain" message) := by
    unfold timeExchange
    split
    · exact ⟨_, rfl⟩
    · next hlen =>
      rw [not_or, List.length_eq_zero_iff, Nat.not_lt] at hlen
      -- the limit cuts the body short
      have hlong : maxHeaderBytes < (asBytes p.head).length + p.body.length := by
        by_contra hshort
        refine hfits ⟨hlen.1, hlen.2, ?_⟩
        rw [Post.text, List.length_append]
        exact Nat.not_lt.mp hshort
      unfold Reader.readExact
      rw [Lines.flatten_split, if_neg (by rw [List.length_take]; omega)]
      exact ⟨_, rfl⟩
  obtain ⟨message, hmessage⟩ := hrefused
  rw [handle_proper h htake, hmessage]
  exact ⟨message, rfl⟩

/-! ## Any connection -/

theorem readLine_suffix {r r' : Reader} {text : String} (h : r.readLine = some (text, r')) :
    r'.lines <:+ r.lines := by
  unfold Reader.readLine at h
  split at h
  · split at h
    · obtain ⟨-, rfl⟩ := Prod.mk.inj (Option.some.inj h)
      exact List.suffix_rfl
    · cases h
  · next line lines hlines =>
    split at h
    · obtain ⟨text', -, hpair⟩ := Option.map_eq_some_iff.mp h
      obtain ⟨-, rfl⟩ := Prod.mk.inj hpair
      rw [hlines]
      exact List.suffix_cons line lines
    · cases h

/-- What the header loop leaves was there before. -/
theorem readHeaders_suffix {ends : Bool} {contentLength length : Nat}
    {lines left : List (List UInt8)}
    (h : readHeaders ends contentLength lines = some (length, left)) : left <:+ lines := by
  induction lines generalizing contentLength with
  | nil =>
    unfold readHeaders at h
    split at h
    · obtain ⟨-, rfl⟩ := Prod.mk.inj (Option.some.inj h)
      exact List.suffix_rfl
    · cases h
  | cons line lines ih =>
    unfold readHeaders at h
    obtain ⟨⟨text, r⟩, -, h⟩ := Option.bind_eq_some_iff.mp h
    dsimp only at h
    split at h
    · obtain ⟨-, rfl⟩ := Prod.mk.inj (Option.some.inj h)
      exact List.suffix_cons line lines
    · exact (ih h).trans (List.suffix_cons line lines)

/-- An exchange answers one body, or leaves the server alone. -/
theorem timeExchange_cases (aead : Aead) (r : Reader) (contentLength : Nat) (peer : SocketAddr K)
    (state : Mutex (ServerState K R)) (s : Surroundings R) :
    (timeExchange aead r contentLength peer state s).1 = state ∨
      ∃ body guard ns, body <+: r.lines.flatten ∧ body ≠ [] ∧ body.length ≤ maxBodyBytes ∧
        state = .healthy guard ∧ s.wallNs = some ns ∧
          timeExchange aead r contentLength peer state s = answered aead body peer ns guard s := by
  by_cases hlen : contentLength = 0 ∨ maxBodyBytes < contentLength
  · left
    unfold timeExchange
    rw [if_pos hlen]
  · cases hread : r.readExact contentLength with
    | none =>
      left
      unfold timeExchange
      rw [if_neg hlen, hread]
    | some body =>
      obtain ⟨hbody, hlength⟩ : body <+: r.lines.flatten ∧ body.length = contentLength := by
        unfold Reader.readExact at hread
        split at hread
        · next hle =>
          obtain rfl := Option.some.inj hread
          exact ⟨List.take_prefix _ _, List.length_take_of_le hle⟩
        · cases hread
      subst hlength
      rw [not_or, List.length_eq_zero_iff, Nat.not_lt] at hlen
      cases state with
      | poisoned =>
        left
        unfold timeExchange
        split
        · rfl
        · rw [hread]
          dsimp only
          cases s.wallNs with
          | none => rfl
          | some ns => rfl
      | healthy guard =>
        cases hns : s.wallNs with
        | none =>
          left
          unfold timeExchange
          split
          · rfl
          · rw [hread]
            dsimp only
            rw [hns]
        | some ns =>
          exact .inr ⟨body, guard, ns, hbody, hlen.1, hlen.2, rfl, rfl,
            timeExchange_eq hlen.1 hlen.2 hread peer guard hns⟩

/-- **A connection gets one body answered at most**, one from the first 8 KiB of what it sent, or it
leaves the server alone. -/
theorem handle_cases (stream : Incoming K) (state : Mutex (ServerState K R))
    (s : Surroundings R) :
    (handle aead stream state s).1 = state ∨
      ∃ body guard ns, body <:+: stream.bytes.take maxHeaderBytes ∧ body ≠ [] ∧
        body.length ≤ maxBodyBytes ∧ state = .healthy guard ∧ s.wallNs = some ns ∧
          handle aead stream state s = ((answered aead body stream.peer ns guard s).1,
            some (answered aead body stream.peer ns guard s).2) := by
  unfold handle
  split
  · exact .inl rfl
  · next requestLine r hline =>
    split
    · exact .inl rfl
    · split
      · exact .inl rfl
      · next contentLength lines hheaders =>
        dsimp only
        unfold route
        split
        · exact .inl rfl
        · split
          -- what the head leaves is the end of what was read
          · have hsuffix : lines <:+ (Reader.new stream).lines :=
              (readHeaders_suffix hheaders).trans (readLine_suffix hline)
            have hflatten : lines.flatten <:+ stream.bytes.take maxHeaderBytes := by
              obtain ⟨before, hbefore⟩ := hsuffix
              have hall := congrArg List.flatten hbefore
              rw [List.flatten_append, Reader.new, Lines.flatten_split] at hall
              exact ⟨_, hall⟩
            have hcases : _ ∨ _ := timeExchange_cases aead { r with lines := lines } contentLength
              stream.peer state s
            rcases hcases with hsame | ⟨body, guard, ns, hbody, hne, hle, hstate, hns, hout⟩
            · exact .inl hsame
            · refine .inr ⟨body, guard, ns, ?_, hne, hle, hstate, hns, by rw [hout]⟩
              exact hbody.isInfix.trans hflatten.isInfix
          · split
            · exact .inl rfl
            · split
              · exact .inl rfl
              · exact .inl rfl

/-! ## Assets -/

theorem flatName_of_not_refused {name : String} (h : refusedName name = false) : FlatName name := by
  unfold refusedName at h
  simp only [Bool.or_eq_false_iff, decide_eq_false_iff_not, List.contains_eq_mem] at h
  obtain ⟨⟨⟨⟨hne, hdots⟩, hslash⟩, hback⟩, -⟩ := h
  refine ⟨hne, fun heq => hdots ?_, hslash, hback⟩
  rw [heq]
  exact List.infix_rfl

theorem serveAsset_same {read read' : String → Option (List UInt8)} (h : SameDirectory read read')
    (path : String) : serveAsset path (some read) = serveAsset path (some read') := by
  unfold serveAsset
  dsimp only
  split
  · rfl
  · next hname => rw [h _ (flatName_of_not_refused (Bool.eq_false_iff.mpr hname))]

/-- What is outside the asset directory cannot be told from what is written. -/
theorem handle_sameDirectory {read read' : String → Option (List UInt8)}
    (h : SameDirectory read read') (stream : Incoming K) (state : Mutex (ServerState K R))
    (s : Surroundings R) :
    handle aead stream state { s with assets := some read } =
      handle aead stream state { s with assets := some read' } := by
  have hroute : ∀ (method path : String) (r : Reader) (contentLength : Nat),
      route aead method path r contentLength stream.peer state { s with assets := some read } =
        route aead method path r contentLength stream.peer state
          { s with assets := some read' } := by
    intro method path r contentLength
    unfold route
    rw [serveAsset_same h]
    rfl
  unfold handle
  simp only [hroute]

/-- **The gateway is a door to the server and to one directory.** A connection has at most one body
answered, one within the limits, as a datagram would be; a page's post that fits is answered so, and
the server never hears of one that does not; and what is outside the asset directory cannot be told
from any answer. -/
theorem gateway_door (aead : Aead) (stream : Incoming K) (state : Mutex (ServerState K R))
    (s : Surroundings R) :
    ((handle aead stream state s).1 = state ∨
      ∃ body guard ns, body <:+: stream.bytes.take maxHeaderBytes ∧ body ≠ [] ∧
        body.length ≤ maxBodyBytes ∧ state = .healthy guard ∧ s.wallNs = some ns ∧
          handle aead stream state s = ((answered aead body stream.peer ns guard s).1,
            some (answered aead body stream.peer ns guard s).2)) ∧
    (∀ (p : Post) (guard : ServerState K R) (ns : Int), p.Proper → p.Fits →
      p.text <+: stream.bytes → state = .healthy guard → s.wallNs = some ns →
        handle aead stream state s = ((answered aead p.body stream.peer ns guard s).1,
          some (answered aead p.body stream.peer ns guard s).2)) ∧
    (∀ p : Post, p.Proper → ¬p.Fits → (asBytes p.head).length ≤ maxHeaderBytes →
      stream.bytes = p.text →
        ∃ message, handle aead stream state s =
          (state, some (respond 400 "text/plain" message))) ∧
    ∀ read read' : String → Option (List UInt8), SameDirectory read read' →
      handle aead stream state { s with assets := some read } =
        handle aead stream state { s with assets := some read' } := by
  refine ⟨handle_cases stream state s, fun p guard ns hproper hfits hstream hstate hns => ?_,
    fun p hproper hfits hhead hstream => handle_post_else hproper hfits hhead hstream state s,
    fun read read' hsame => handle_sameDirectory hsame stream state s⟩
  subst hstate
  exact handle_post hproper hfits hstream guard hns

end

/-- Three bytes posted to a gateway with no assets, and what follows them. -/
def threeBytes : Incoming ℕ := ⟨⟨0, 123⟩, (Post.plain [1, 2, 3]).text ++ [4, 5], false⟩

def noAssets : Surroundings ℚ :=
  ⟨some 0, ⟨some 0, some (0, 0)⟩, ⟨fun _ n => some (.replicate n 0)⟩, [], none⟩

theorem gateway_door_small : ∃ guard : ServerState ℕ ℚ,
    handle Aead.checksum threeBytes (.healthy guard) noAssets =
      ((answered Aead.checksum [1, 2, 3] ⟨0, 123⟩ 0 guard noAssets).1,
        some (answered Aead.checksum [1, 2, 3] ⟨0, 123⟩ 0 guard noAssets).2) := by
  obtain ⟨clients, -⟩ := Option.isSome_iff_exists.mp
    (show (ClientTable.new 1 ⟨0, 1, 0, 0, 0⟩ fun _ => 7 : Option (ClientTable ℕ ℚ)).isSome by
      decide +kernel)
  have hdoor := gateway_door Aead.checksum threeBytes
    (.healthy ⟨clients, KeyRing.new 3, 2, .reference⟩) noAssets
  exact ⟨_, hdoor.2.1 (Post.plain [1, 2, 3]) _ 0 (Post.plain_proper (by decide))
    ⟨by decide, by decide, by decide +kernel⟩ (List.prefix_append _ _) rfl rfl⟩

end RustyTime.Gateway
