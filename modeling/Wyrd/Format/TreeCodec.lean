import Wyrd.Durable.Codec.Documents
import Wyrd.Format.Tree
import Wyrd.Lib.Parser

/-! # Canonical bytes of directory nodes

A node decodes only from its canonical payload: strictly increasing components, known
kinds, and no octets beyond the last entry. Every node decodes from its encoding.
-/

namespace Wyrd

def ofUtf8 (bytes : Bytes) : Except TreeError String :=
  match String.fromUTF8? ⟨bytes.toArray⟩ with
  | some text => .ok text
  | none => .error .invalidUtf8

lemma length_textBytes (text : String) : (textBytes text).length = text.utf8ByteSize := rfl

lemma ofUtf8_textBytes (text : String) : ofUtf8 (textBytes text) = .ok text := by
  have hs : (⟨(textBytes text).toArray⟩ : ByteArray) = text.toUTF8 := by simp [textBytes]
  rw [ofUtf8, hs, String.fromUTF8?, String.toUTF8_eq_toByteArray, dif_pos text.isValidUTF8]
  rfl

variable {bytes : Bytes}

lemma textBytes_ofUtf8 (fine : ofUtf8 bytes = .ok text) : textBytes text = bytes := by
  unfold ofUtf8 String.fromUTF8? at fine
  split at fine
  · next hf =>
    split_ifs at hf
    cases hf
    cases fine
    rfl
  · cases fine

def EntryContent.kind : EntryContent → UInt8
  | .file _ _ _ => 0x00
  | .dir _ => 0x01
  | .symlink _ => 0x02

def EntryContent.encode : EntryContent → Bytes
  | .file size executable chunks =>
    (leBytes 8 size.toNat ++ [if executable then 1 else 0] ++ leBytes 4 chunks.length) ++
      chunks.flatMap Id.asBytes
  | .dir subtree => subtree.asBytes
  | .symlink target => leBytes 4 (textBytes target).length ++ textBytes target

def Entry.encode (entry : Entry) : Bytes :=
  [entry.content.kind] ++ (leBytes 4 (textBytes entry.name.name).length ++
    (textBytes entry.name.name ++ entry.content.encode))

def Tree.encode (tree : Tree) : Bytes :=
  leBytes 4 tree.entries.length ++ tree.entries.flatMap Entry.encode

open Wyrd.Parser

abbrev TreeParser := Parser TreeError

/-- `ContentId::from_bytes`. -/
def ContentId.ofBytes (bytes : Bytes) : ContentId := ⟨Fin.ofNat (2 ^ 256) (ofBe bytes)⟩

def chunkIds : Nat → Bytes → List ContentId
  | 0, _ => []
  | count + 1, bytes => ContentId.ofBytes (bytes.take 32) :: chunkIds count (bytes.drop 32)

def execByte (byte : UInt8) : Except TreeError Bool :=
  if byte = 0 then .ok false else if byte = 1 then .ok true else .error (.invalidExecByte byte)

def parseFile : TreeParser EntryContent := do
  let header ← take .truncated 13
  let executable ← lift (execByte (header.getD 8 0))
  let count := ofLe (header.drop 9)
  let chunks ← take .truncated (count * 32)
  return .file (UInt64.ofNat (ofLe (header.take 8))) executable (chunkIds count chunks)

def parseSymlink : TreeParser EntryContent := do
  let length ← word .truncated 4
  let raw ← take .truncated length
  let target ← lift (ofUtf8 raw)
  return .symlink target

def parseContent (kind : UInt8) : TreeParser EntryContent :=
  if kind = 0x00 then parseFile
  else if kind = 0x01 then do return .dir (ContentId.ofBytes (← take .truncated 32))
  else if kind = 0x02 then parseSymlink
  else lift (.error (.unknownEntryKind kind))

/-- Components come in strictly increasing order. -/
def inOrder (prev : Option Component) (name : Component) : Except TreeError Unit :=
  match prev with
  | none => .ok ()
  | some prev =>
    if name = prev then .error (.duplicateComponent name.name)
    else if name < prev then .error .unsorted
    else .ok ()

def parseEntry (prev : Option Component) : TreeParser Entry := do
  let kind ← take .truncated 1
  let length ← word .truncated 4
  let raw ← take .truncated length
  let text ← lift (ofUtf8 raw)
  let name ← lift ((Component.new text).mapError .invalidComponent)
  lift (inOrder prev name)
  let content ← parseContent (kind.headD 0)
  return ⟨name, content⟩

def parseEntries : Nat → Option Component → TreeParser (List Entry)
  | 0, _ => return []
  | count + 1, prev => do
      let entry ← parseEntry prev
      let rest ← parseEntries count (some entry.name)
      return entry :: rest

def parseNode : TreeParser (List Entry) := do
  let count ← word .truncated 4
  parseEntries count none

variable {rest : Bytes}

lemma word_spelled (parsed : (word short width : TreeParser Nat) bytes = .ok (n, rest)) :
    n < 256 ^ width ∧ bytes = leBytes width n ++ rest := by
  obtain ⟨taken, middle, hf, hl⟩ := bind_accepted parsed
  obtain ⟨rfl, rfl⟩ := take_accepted hf
  cases hl
  exact ⟨ofLe_lt taken, by rw [leBytes_ofLe]⟩

/-- A counted text, as it opens a name and is a target. -/
lemma text_spelled {α : Type} {next : String → TreeParser α} {result}
    (parsed : (word .truncated 4 >>= fun length => take .truncated length >>= fun raw =>
      lift (ofUtf8 raw) >>= next) bytes = .ok (result, rest)) :
    ∃ text middle, text.utf8ByteSize ≤ countLimit ∧
      bytes = leBytes 4 (textBytes text).length ++ (textBytes text ++ middle) ∧
      next text middle = .ok (result, rest) := by
  obtain ⟨length, _, hc, hb⟩ := bind_accepted parsed
  obtain ⟨raw, _, ht, hd⟩ := bind_accepted hb
  obtain ⟨text, middle, decoded, hg⟩ := bind_accepted hd
  obtain ⟨fine, rfl⟩ := lift_accepted decoded
  obtain ⟨rfl, rfl⟩ := take_accepted ht
  obtain ⟨hs, rfl⟩ := word_spelled hc
  obtain rfl := textBytes_ofUtf8 fine
  refine ⟨text, middle, ?_, rfl, hg⟩
  rw [countLimit, ← length_textBytes]
  omega

variable {prev : Option Component}

lemma inOrder_ok (fine : inOrder prev name = .ok ()) : ∀ before ∈ prev, before < name := by
  rintro before ⟨⟩
  unfold inOrder at fine
  dsimp only at fine
  split_ifs at fine with hs hb
  exact lt_of_le_of_ne (not_lt.mp hb) (Ne.symm hs)

@[simp] lemma length_chunkIds (count : Nat) (bytes : Bytes) :
    (chunkIds count bytes).length = count := by
  induction count generalizing bytes with
  | zero => rfl
  | succ count ih => simp [chunkIds, ih]

/-- The lengths behind a content fit the wire. -/
def EntryContent.Fits : EntryContent → Prop
  | .file _ _ chunks => chunks.length ≤ countLimit
  | .dir _ => True
  | .symlink target => target.utf8ByteSize ≤ countLimit

lemma Entry.overflow_eq_none {entry : Entry} : entry.overflow = none ↔
    entry.name.name.utf8ByteSize ≤ countLimit ∧ entry.content.Fits := by
  unfold Entry.overflow EntryContent.Fits
  by_cases wide : countLimit < entry.name.name.utf8ByteSize
  · simp [wide]
  · cases entry.content with
    | file => simp [wide, not_lt.mp wide]
    | dir => simp [not_lt.mp wide]
    | symlink => simp [wide, not_lt.mp wide]

lemma ContentId.asBytes_ofBytes (length : bytes.length = 32) :
    (ContentId.ofBytes bytes).asBytes = bytes := by
  have small := ofBe_lt bytes
  rw [length] at small
  rw [ContentId.ofBytes, Id.asBytes, Fin.val_ofNat, Nat.mod_eq_of_lt (by omega), ← length,
    beBytes_ofBe]

lemma flatMap_chunkIds (length : bytes.length = count * 32) :
    (chunkIds count bytes).flatMap Id.asBytes = bytes := by
  induction count generalizing bytes with
  | zero => exact (List.eq_nil_of_length_eq_zero (by omega)).symm
  | succ count ih =>
    rw [chunkIds, List.flatMap_cons, ih (by rw [List.length_drop]; omega),
      ContentId.asBytes_ofBytes (by rw [List.length_take]; omega), List.take_append_drop]

variable {content : EntryContent}

/-- A content of one kind is in its wire form. -/
def EntryContent.Spelled (content : EntryContent) (kind : UInt8) (bytes rest : Bytes) : Prop :=
  content.kind = kind ∧ bytes = content.encode ++ rest ∧ content.Fits

lemma execByte_ok (fine : execByte byte = .ok executable) : byte = if executable then 1 else 0 := by
  unfold execByte at fine
  split_ifs at fine with off on <;> cases fine <;> assumption

lemma parseFile_spelled (parsed : parseFile bytes = .ok (content, rest)) :
    content.Spelled 0x00 bytes rest := by
  obtain ⟨header, _, first, hb⟩ := bind_accepted parsed
  obtain ⟨executable, _, hf, hm⟩ := bind_accepted hb
  obtain ⟨chunks, _, hl, last⟩ := bind_accepted hm
  obtain ⟨rfl, length⟩ := take_accepted first
  obtain ⟨flag, rfl⟩ := lift_accepted hf
  obtain ⟨rfl, hw⟩ := take_accepted hl
  cases last
  have split : header.take 8 ++ [header.getD 8 0] ++ header.drop 9 = header := by
    conv_rhs => rw [← List.take_append_drop 8 header, List.drop_eq_getElem_cons (by omega)]
    simp [length]
  have small := ofLe_lt (header.take 8)
  have few := ofLe_lt (header.drop 9)
  have wide : (header.take 8).length = 8 := by rw [List.length_take, length]; rfl
  have narrow : (header.drop 9).length = 4 := by rw [List.length_drop, length]
  rw [wide] at small
  rw [narrow] at few
  refine ⟨rfl, ?_, ?_⟩
  · rw [EntryContent.encode, length_chunkIds, flatMap_chunkIds hw, ← execByte_ok flag,
      UInt64.toNat_ofNat_of_lt' (by omega)]
    nth_rw 1 [← wide, ← narrow]
    rw [leBytes_ofLe, leBytes_ofLe, split, List.append_assoc]
  · change (chunkIds _ _).length ≤ countLimit
    rw [length_chunkIds, countLimit]
    omega

lemma parseContent_spelled {kind} (parsed : parseContent kind bytes = .ok (content, rest)) :
    content.Spelled kind bytes rest := by
  unfold parseContent at parsed
  split_ifs at parsed with file hd hs
  · rw [file]
    exact parseFile_spelled parsed
  · obtain ⟨raw, _, ht, last⟩ := bind_accepted parsed
    obtain ⟨rfl, hl⟩ := take_accepted ht
    cases last
    exact ⟨hd.symm, by rw [EntryContent.encode, ContentId.asBytes_ofBytes hl], trivial⟩
  · obtain ⟨target, _, hf, rfl, last⟩ := text_spelled parsed
    cases last
    exact ⟨hs.symm, (List.append_assoc ..).symm, hf⟩
  · cases parsed

lemma parseEntry_spelled {entry : Entry} (parsed : parseEntry prev bytes = .ok (entry, rest)) :
    bytes = entry.encode ++ rest ∧ entry.overflow = none ∧ ∀ before ∈ prev, before < entry.name := by
  obtain ⟨kind, _, first, hb⟩ := bind_accepted parsed
  obtain ⟨text, _, short, rfl, hn⟩ := text_spelled hb
  obtain ⟨name, _, hc, hp⟩ := bind_accepted hn
  obtain ⟨_, _, ho, hh⟩ := bind_accepted hp
  obtain ⟨content, _, hf, hl⟩ := bind_accepted hh
  obtain ⟨hv, rfl⟩ := lift_accepted hc
  obtain ⟨ha, rfl⟩ := lift_accepted ho
  obtain ⟨rfl, single⟩ := take_accepted first
  obtain ⟨octet, rfl⟩ := List.length_eq_one_iff.mp single
  cases hl
  obtain ⟨rfl, rfl, fits⟩ := parseContent_spelled hf
  have hs : name.name = text := by
    unfold Component.new at hv
    split at hv <;> cases hv
    rfl
  subst hs
  refine ⟨?_, Entry.overflow_eq_none.mpr ⟨short, fits⟩, inOrder_ok ha⟩
  simp only [Entry.encode, List.append_assoc]

variable {entries : List Entry}

lemma parseEntries_canonical (parsed : parseEntries count prev bytes = .ok (entries, rest)) :
    bytes = entries.flatMap Entry.encode ++ rest ∧ entries.length = count ∧
      (∀ entry ∈ entries, entry.overflow = none) ∧
      (entries.Pairwise fun first second => first.name < second.name) ∧
      ∀ before ∈ prev, ∀ entry ∈ entries, before < entry.name := by
  induction count generalizing prev bytes entries with
  | zero =>
    cases parsed
    simp
  | succ count ih =>
    obtain ⟨entry, middle, first, parsed⟩ := bind_accepted parsed
    obtain ⟨later, _, hr, parsed⟩ := bind_accepted parsed
    cases parsed
    obtain ⟨rfl, hf, above⟩ := parseEntry_spelled first
    obtain ⟨rfl, hl, fit, hs, beyond⟩ := ih hr
    refine ⟨by simp, by simp [hl], ?_, ?_, fun before known other hm => ?_⟩
    · simpa using ⟨hf, fit⟩
    · exact List.pairwise_cons.mpr ⟨beyond entry.name rfl, hs⟩
    · rcases List.mem_cons.mp hm with rfl | hm
      · exact above before known
      · exact (above before known).trans (beyond entry.name rfl other hm)

lemma parseNode_canonical (parsed : parseNode bytes = .ok (entries, rest)) :
    (entries.Pairwise fun first second => first.name < second.name) ∧
      (entries.length ≤ countLimit ∧ ∀ entry ∈ entries, entry.overflow = none) ∧
      bytes = leBytes 4 entries.length ++ entries.flatMap Entry.encode ++ rest := by
  obtain ⟨count, _, hc, hl⟩ := bind_accepted parsed
  obtain ⟨rfl, rfl, fit, hs, -⟩ := parseEntries_canonical hl
  obtain ⟨small, rfl⟩ := word_spelled hc
  refine ⟨hs, ⟨?_, fit⟩, (List.append_assoc ..).symm⟩
  rw [countLimit]
  omega

def Tree.decode (payload : Bytes) : Except TreeError Tree :=
  match parsed : parseNode payload with
  | .error error => .error error
  | .ok (entries, rest) =>
    if rest = [] then
      .ok ⟨entries, (parseNode_canonical parsed).1, (parseNode_canonical parsed).2.1⟩
    else .error .trailingBytes

lemma ContentId.ofBytes_asBytes (id : ContentId) : ContentId.ofBytes id.asBytes = id := by
  unfold ContentId.ofBytes Id.asBytes
  rw [ofBe_beBytes (id.raw.isLt.trans_le (by norm_num)), Fin.ofNat_val_eq_self]

lemma chunkIds_asBytes (chunks : List ContentId) :
    chunkIds chunks.length (chunks.flatMap Id.asBytes) = chunks := by
  induction chunks with
  | nil => rfl
  | cons chunk chunks ih =>
    have exact := chunk.length_asBytes
    rw [List.length_cons, chunkIds, List.flatMap_cons, List.take_left' exact,
      List.drop_left' exact, ContentId.ofBytes_asBytes, ih]

lemma length_chunks (chunks : List ContentId) :
    (chunks.flatMap Id.asBytes).length = chunks.length * 32 := by
  induction chunks with
  | nil => rfl
  | cons chunk chunks ih => simp [ih]; omega

lemma parseFile_accepts (fits : chunks.length ≤ countLimit) :
    Accepts parseFile (EntryContent.file size executable chunks).encode
      (.file size executable chunks) := by
  have few : chunks.length < 256 ^ 4 := by
    rw [countLimit] at fits
    omega
  have small := size.toNat_lt
  have header : (leBytes 8 size.toNat ++ [if executable then 1 else 0] ++
      leBytes 4 chunks.length).length = 13 := by simp
  have flag : execByte ((leBytes 8 size.toNat ++ [if executable then 1 else 0] ++
      leBytes 4 chunks.length).getD 8 0) = .ok executable := by
    rw [List.append_assoc, List.getD_append_right _ _ _ _ (by simp), length_leBytes]
    cases executable <;> rfl
  have count : (leBytes 8 size.toNat ++ [if executable then 1 else 0] ++
      leBytes 4 chunks.length).drop 9 = leBytes 4 chunks.length :=
    List.drop_left' (by simp)
  have first : (leBytes 8 size.toNat ++ [if executable then 1 else 0] ++
      leBytes 4 chunks.length).take 8 = leBytes 8 size.toNat := by
    rw [List.append_assoc]
    exact List.take_left' (by simp)
  refine (accepts_take TreeError.truncated header).bind (Accepts.skip (accepts_lift flag) ?_)
  rw [count, ofLe_leBytes few, first, ofLe_leBytes (by omega)]
  have body := (accepts_take TreeError.truncated (length_chunks chunks)).map
    fun raw => EntryContent.file (UInt64.ofNat size.toNat) executable (chunkIds chunks.length raw)
  rw [chunkIds_asBytes, UInt64.ofNat_toNat] at body
  rw [UInt64.ofNat_toNat]
  exact body

lemma accepts_text {α : Type} {text : String} (fits : text.utf8ByteSize ≤ countLimit)
    {next : String → TreeParser α} {more result} (goesOn : Accepts (next text) more result) :
    Accepts (word .truncated 4 >>= fun length => take .truncated length >>= fun raw =>
      lift (ofUtf8 raw) >>= next)
      (leBytes 4 (textBytes text).length ++ (textBytes text ++ more)) result := by
  have small : (textBytes text).length < 256 ^ 4 := by
    rw [length_textBytes]
    rw [countLimit] at fits
    omega
  exact (accepts_word _ small).bind ((accepts_take _ rfl).bind
    (Accepts.skip (accepts_lift (ofUtf8_textBytes text)) goesOn))

lemma parseSymlink_accepts {target} (fits : target.utf8ByteSize ≤ countLimit) :
    Accepts parseSymlink (EntryContent.symlink target).encode (.symlink target) := by
  have body : Accepts parseSymlink
      (leBytes 4 (textBytes target).length ++ (textBytes target ++ [])) (.symlink target) := by
    unfold parseSymlink
    refine accepts_text fits ?_
    exact accepts_pure _
  rw [List.append_nil] at body
  exact body

lemma parseContent_accepts (fits : content.Fits) :
    Accepts (parseContent content.kind) content.encode content := by
  cases content with
  | file => exact parseFile_accepts fits
  | dir subtree =>
    have body := (accepts_take TreeError.truncated subtree.length_asBytes).map
      fun raw => EntryContent.dir (ContentId.ofBytes raw)
    rw [ContentId.ofBytes_asBytes] at body
    exact body
  | symlink => exact parseSymlink_accepts fits

lemma parseEntry_accepts {entry : Entry} (fits : entry.overflow = none)
    (above : ∀ before ∈ prev, before < entry.name) :
    Accepts (parseEntry prev) entry.encode entry := by
  obtain ⟨short, fits⟩ := Entry.overflow_eq_none.mp fits
  have ordered : inOrder prev entry.name = .ok () := by
    cases prev with
    | none => rfl
    | some before =>
      have hb := above before rfl
      simp only [inOrder]
      rw [if_neg hb.ne', if_neg hb.not_gt]
  have hn : (Component.new entry.name.name).mapError TreeError.invalidComponent =
      .ok entry.name := by
    rw [Component.new_name]
    rfl
  unfold parseEntry
  refine Accepts.bind (accepts_take TreeError.truncated rfl) ?_
  refine accepts_text short ?_
  refine Accepts.skip (accepts_lift hn) (Accepts.skip (accepts_lift ordered) ?_)
  exact (parseContent_accepts fits).map (Entry.mk entry.name)

lemma parseEntries_accepts (fit : ∀ entry ∈ entries, entry.overflow = none)
    (sorted : entries.Pairwise fun first second => first.name < second.name)
    (above : ∀ before ∈ prev, ∀ entry ∈ entries, before < entry.name) :
    Accepts (parseEntries entries.length prev) (entries.flatMap Entry.encode) entries := by
  induction entries generalizing prev with
  | nil => exact accepts_pure []
  | cons entry rest ih =>
    obtain ⟨least, sorted⟩ := List.pairwise_cons.mp sorted
    have first : Accepts (parseEntry prev) entry.encode entry :=
      parseEntry_accepts (fit entry (List.mem_cons_self ..))
        fun before hk => above before hk entry (List.mem_cons_self ..)
    have later : Accepts (parseEntries rest.length (some entry.name))
        (rest.flatMap Entry.encode) rest := by
      refine ih (fun other hm => fit other (List.mem_cons_of_mem _ hm)) sorted ?_
      rintro before ⟨⟩ other hm
      exact least other hm
    exact first.bind (later.map (entry :: ·))

@[simp] lemma Tree.decode_encode (tree : Tree) : Tree.decode tree.encode = .ok tree := by
  have few : tree.entries.length < 256 ^ 4 := by
    have fits := tree.fits.1
    rw [countLimit] at fits
    omega
  have whole : Accepts parseNode tree.encode tree.entries :=
    (accepts_word _ few).bind (parseEntries_accepts tree.fits.2 tree.sorted (by simp))
  have parsed := whole []
  rw [List.append_nil] at parsed
  unfold Tree.decode
  split
  · next failed => rw [parsed] at failed; cases failed
  · next entries rest hd =>
    rw [parsed] at hd
    cases hd
    rfl

lemma Tree.encode_decode (decoded : Tree.decode bytes = .ok tree) : tree.encode = bytes := by
  unfold Tree.decode at decoded
  split at decoded
  · cases decoded
  · next entries rest done =>
    split_ifs at decoded with hw
    cases decoded
    have spells := (parseNode_canonical done).2.2
    rw [hw, List.append_nil] at spells
    exact spells.symm

/-- `binary_search_by`: the window is halved until one entry is left to compare. -/
def probe (name : Component) (window : List Entry) : Option Entry :=
  if single : window.length ≤ 1 then window.head?.filter (·.name = name)
  else if name < (window[window.length / 2]).name then
    probe name (window.take (window.length - window.length / 2))
  else probe name (window.drop (window.length / 2))
termination_by window.length
decreasing_by
  all_goals simp only [List.length_take, List.length_drop]
  all_goals omega

def Tree.get (tree : Tree) (name : Component) : Option Entry := probe name tree.entries

lemma probe_eq_find (sorted : entries.Pairwise fun first second => first.name < second.name) :
    probe name entries = entries.find? (·.name = name) := by
  fun_induction probe name entries with
  | case1 window single =>
    match window, single with
    | [], _ => rfl
    | [entry], _ => by_cases hs : entry.name = name <;> simp [hs]
  | case2 window long hb ih =>
    rw [ih (sorted.sublist (List.take_sublist ..))]
    have beyond : (window.drop (window.length - window.length / 2)).find? (·.name = name) = none := by
      refine List.find?_eq_none.mpr fun entry hm => ?_
      have late := List.drop_subset_drop_left window (by omega : window.length / 2 ≤ _) hm
      rw [List.drop_eq_getElem_cons (by omega)] at late
      have least := sorted.sublist (List.drop_sublist (window.length / 2) window)
      rw [List.drop_eq_getElem_cons (by omega), List.pairwise_cons] at least
      rcases List.mem_cons.mp late with rfl | late
      · simpa using hb.ne'
      · simpa using (hb.trans (least.1 entry late)).ne'
    conv_rhs => rw [← List.take_append_drop (window.length - window.length / 2) window]
    rw [List.find?_append, beyond, Option.or_none]
  | case3 window long ha ih =>
    rw [ih (sorted.sublist (List.drop_sublist ..))]
    have whole := List.take_append_drop (window.length / 2) window
    have prior : (window.take (window.length / 2)).find? (·.name = name) = none := by
      refine List.find?_eq_none.mpr fun entry hm => ?_
      rw [← whole, List.pairwise_append] at sorted
      have less := sorted.2.2 entry hm window[window.length / 2]
        (List.mem_drop_iff_getElem.mpr ⟨0, by omega, rfl⟩)
      simpa using (less.trans_le (not_lt.mp ha)).ne
    conv_rhs => rw [← whole]
    rw [List.find?_append, prior, Option.none_or]

/-- The identity of a node, over the hash of its kind. -/
def Tree.contentId (hash : Bytes → ContentId) (tree : Tree) : ContentId := hash tree.encode

theorem Tree.node_codec_bijective {others : List Entry} {tree other : Tree}
    (built : Tree.fromEntries entries = .ok tree) (made : Tree.fromEntries others = .ok other)
    {hash : Bytes → ContentId} (free : CollisionFree hash tree.encode other.encode)
    (bytes : Bytes) (name : Component) :
    Tree.decode tree.encode = .ok tree ∧
      (∀ decoded, Tree.decode bytes = .ok decoded → decoded.encode = bytes ∧
        (decoded.entries.Pairwise fun first second => first.name < second.name) ∧
        (decoded.entries.map Entry.name).Nodup ∧
        ∀ entry ∈ decoded.entries, Component.fault entry.name.name = none) ∧
      (tree.contentId hash = other.contentId hash →
        tree.entries = other.entries ∧ entries.Perm others) ∧
      tree.get name = tree.entries.find? (·.name = name) := by
  refine ⟨tree.decode_encode, fun decoded hok => ?_, fun hs => ?_, probe_eq_find tree.sorted⟩
  · exact ⟨Tree.encode_decode hok, decoded.sorted, decoded.names_nodup,
      fun entry _ => entry.name.valid⟩
  · have read := tree.decode_encode
    rw [free hs, other.decode_encode] at read
    cases read
    exact ⟨rfl, (Tree.fromEntries_perm built).symm.trans (Tree.fromEntries_perm made)⟩

def fileName : Component := ⟨"a", by decide +kernel⟩

def linkName : Component := ⟨"l", by decide +kernel⟩

def directoryName : Component := ⟨"s", by decide +kernel⟩

/-- A file of one chunk, a link to it and a subdirectory. -/
def upperTree (chunk subtree : ContentId) : Tree where
  entries := [⟨fileName, .file 1 false [chunk]⟩, ⟨linkName, .symlink "a"⟩,
    ⟨directoryName, .dir subtree⟩]
  sorted := by
    have low : fileName < linkName := by decide +kernel
    have high : linkName < directoryName := by decide +kernel
    simp [low, high, low.trans high]
  fits := by
    refine ⟨show 3 ≤ countLimit by decide, ?_⟩
    rintro entry (_ | ⟨_, _ | ⟨_, _ | ⟨_, ⟨⟩⟩⟩⟩) <;> rfl

theorem Tree.node_codec_bijective_upper :
    Tree.decode (upperTree ⟨1⟩ ⟨2⟩).encode = .ok (upperTree ⟨1⟩ ⟨2⟩) ∧
      (upperTree ⟨1⟩ ⟨2⟩).entries.reverse.Perm (upperTree ⟨1⟩ ⟨2⟩).entries ∧
      (upperTree ⟨1⟩ ⟨2⟩).get linkName = some ⟨linkName, .symlink "a"⟩ := by
  have built := Tree.fromEntries_of_perm (upperTree ⟨1⟩ ⟨2⟩).entries.reverse_perm
  have made := Tree.fromEntries_of_perm (.refl (upperTree ⟨1⟩ ⟨2⟩).entries)
  have free : CollisionFree (fun bytes => (⟨Fin.ofNat (2 ^ 256) bytes.length⟩ : ContentId))
      (upperTree ⟨1⟩ ⟨2⟩).encode (upperTree ⟨1⟩ ⟨2⟩).encode := fun _ => rfl
  obtain ⟨reads, -, same, finds⟩ := Tree.node_codec_bijective built made free [] linkName
  exact ⟨reads, (same rfl).2, finds.trans (by decide +kernel)⟩

end Wyrd
