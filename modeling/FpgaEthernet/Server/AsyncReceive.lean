import FpgaEthernet.Numeric.HexStream
import FpgaEthernet.Server.FlashContents

/-!
# Receiving data into a file

Model of `asyncRecieve` and of `sendData` with a file (`server/src/ODILEServer.cpp`). The
thread writes what it receives to a FITS image, to lines of hexadecimal words, or as it comes;
a text file can be sent.

Main results:

* `record_fits`: an image is filled from the first pixel on, without a gap, and not beyond the
  packet with its last pixel.
* `holds_text`: what was received into a text file is what is sent from it.
* `asyncRecieve_holds`: whatever comes in, the file has it.
-/

namespace FpgaEthernet.OdileServer

open Numeric (readHex hexLine readHex_lines)
open Server (bswap32 bswap32_bswap32)

/-! ## Model -/

/-- `BUFFSIZE` (line 21). -/
def buffSize : ℕ := 2048

/-- The fields of `async_arg_t` that decide about the file. An `int` has 32 bits. -/
structure AsyncArg where
  outfname : List Char
  nrows : BitVec 32
  ncols : BitVec 32

/-- Both dimensions of the image are positive (lines 283 and 303). -/
def AsyncArg.HasImage (arg : AsyncArg) : Prop := 0 < arg.ncols.toInt ∧ 0 < arg.nrows.toInt

instance (arg : AsyncArg) : Decidable arg.HasImage := inferInstanceAs (Decidable (_ ∧ _))

/-- `pix_to_read` (line 277), the product of two `int`s: from 2^31 pixels on it has wrapped
    around, as an `int` does on the machine. -/
def AsyncArg.pixToRead (arg : AsyncArg) : ℤ := (arg.nrows * arg.ncols).toInt

/-- The output file: the calls of `fits_write_img`, each with its first pixel and its words, or
    what is in the stream. -/
inductive Outfile
  | fits (calls : List (ℤ × List Word))
  | text (chars : List Char)
  | binary (bytes : List (BitVec 8))
  deriving DecidableEq

/-- The file and the local variables of the thread, with `arg->nread`. -/
structure Receiving where
  file : Outfile
  currPix : ℤ
  nread : BitVec 32
  wordsRecvd : BitVec 32

/-- The two words in front of a binary file (lines 302-308). -/
def binaryHeader (arg : AsyncArg) : List (BitVec 8) :=
  if arg.HasImage then wordBytes (bswap32 arg.ncols) ++ wordBytes (bswap32 arg.nrows) else []

/-- The file as it is opened (lines 279-309), with `CFITSIO_INSTALLED`. -/
def openFile (arg : AsyncArg) : Outfile :=
  if ".fits".toList <:+: arg.outfname ∧ arg.HasImage then .fits []
  else if ".txt".toList <:+: arg.outfname then .text []
  else .binary (binaryHeader arg)

/-- The words of a buffer, as they stand in the memory of the host. -/
def hostWords : List (BitVec 8) → List Word
  | b₀ :: b₁ :: b₂ :: b₃ :: bytes => ofBytes [b₀, b₁, b₂, b₃] :: hostWords bytes
  | _ => []

/-- `swapBufferBytes` of a packet. -/
def packetWords (buffer : List (BitVec 8)) : List Word := (hostWords buffer).map bswap32

/-- What is done with a packet (lines 314-338). -/
def receivePacket (arg : AsyncArg) (buffer : List (BitVec 8)) (v : Receiving) : Receiving :=
  let nwords := buffer.length / 4
  let v := { v with
    nread := v.nread + BitVec.ofNat 32 nwords
    wordsRecvd := v.wordsRecvd + BitVec.ofNat 32 nwords }
  match v.file with
  | .fits calls =>
    if v.currPix ≤ arg.pixToRead then
      { v with
        file := .fits (calls ++ [(v.currPix, packetWords buffer)])
        currPix := v.currPix + nwords }
    else v
  | .text chars => { v with file := .text (chars ++ (packetWords buffer).flatMap (hexLine 8)) }
  | .binary bytes => { v with file := .binary (bytes ++ buffer) }

/-- A pass of the loop: `timed_recv` comes back with nothing, or with as much of a datagram as
    fits into the buffer. -/
def receivePass (arg : AsyncArg) (v : Receiving) : Option (List (BitVec 8)) → Receiving
  | none => v
  | some datagram =>
    if 0 < (datagram.take buffSize).length then receivePacket arg (datagram.take buffSize) v else v

/-- `asyncRecieve` (lines 266-350), with what `timed_recv` comes back with until `arg->stop`.
    `words_recvd` is a `new int` that is not initialised: `garbage` is what the memory had. -/
def asyncRecieve (garbage : BitVec 32) (arg : AsyncArg)
    (received : List (Option (List (BitVec 8)))) : Receiving :=
  received.foldl (receivePass arg) ⟨openFile arg, 1, 0, garbage⟩

/-- `sendData` with the text in a file (lines 215-226). -/
def sendFile (ifile : List Char) (port : UdpPort) : Host Unit :=
  sendData ((readHex 32 ifile).map bswap32) port

/-! ## Words in a buffer -/

variable {arg : AsyncArg} {received : List (Option (List (BitVec 8)))} {bs cs : List (BitVec 8)}
  {v : Receiving}

/-- A buffer with no word in it. -/
theorem length_lt_four (h : ∀ b₀ b₁ b₂ b₃ bytes, bs = b₀ :: b₁ :: b₂ :: b₃ :: bytes → False) :
    bs.length < 4 := by
  by_contra hlen
  have htake : (bs.take 4).length = 4 := List.length_take_of_le (by omega)
  obtain ⟨b₀, b₁, b₂, b₃, hbytes⟩ := List.length_eq_four.1 htake
  refine h b₀ b₁ b₂ b₃ (bs.drop 4) ?_
  rw [← List.take_append_drop 4 bs, hbytes]
  rfl

/-- The bytes of the words of a buffer are those of the buffer, up to its last whole word. -/
theorem flatMap_hostWords (bs : List (BitVec 8)) :
    (hostWords bs).length = bs.length / 4 ∧
      (hostWords bs).flatMap wordBytes = bs.take (4 * (bs.length / 4)) := by
  induction bs using hostWords.induct with
  | case1 b₀ b₁ b₂ b₃ bytes ih =>
    have hdiv : (b₀ :: b₁ :: b₂ :: b₃ :: bytes).length / 4 = bytes.length / 4 + 1 := by
      simp only [List.length_cons]
      omega
    rw [hostWords, List.length_cons, List.flatMap_cons, wordBytes_ofBytes, ih.1, ih.2, hdiv,
      Nat.mul_succ]
    exact ⟨rfl, rfl⟩
  | case2 bs h =>
    have hlen := length_lt_four h
    have hnil : hostWords bs = [] := by
      rw [hostWords]
      exact h
    have hdiv : bs.length / 4 = 0 := by omega
    rw [hnil, hdiv]
    exact ⟨rfl, rfl⟩

theorem hostWords_flatMap (ws : List Word) : hostWords (ws.flatMap wordBytes) = ws := by
  induction ws with
  | nil => rfl
  | cons w ws ih =>
    rw [List.flatMap_cons, wordBytes, List.cons_append, List.cons_append, List.cons_append,
      List.singleton_append, hostWords, ih]
    exact congrArg (· :: ws) (ofBytes_wordBytes w)

theorem length_packetWords (bs : List (BitVec 8)) : (packetWords bs).length = bs.length / 4 := by
  rw [packetWords, List.length_map, (flatMap_hostWords bs).1]

/-- Buffers of whole words, one after the other. -/
theorem packetWords_flatten {ps : List (List (BitVec 8))} (h : ∀ p ∈ ps, p.length % 4 = 0) :
    packetWords ps.flatten = ps.flatMap packetWords := by
  have hbytes : ps.flatten = (ps.flatMap hostWords).flatMap wordBytes := by
    rw [List.flatMap_assoc, List.flatten_eq_flatMap]
    refine List.flatMap_congr fun p hp => ?_
    have hdvd := h p hp
    rw [(flatMap_hostWords p).2, Nat.mul_div_cancel' (Nat.dvd_of_mod_eq_zero hdvd),
      List.take_length]
    rfl
  rw [packetWords, hbytes, hostWords_flatMap, List.map_flatMap]
  rfl

/-! ## What is received -/

/-- The packets that the loop takes in. -/
def packets (received : List (Option (List (BitVec 8)))) : List (List (BitVec 8)) :=
  ((received.filterMap id).map (List.take buffSize)).filter fun p => 0 < p.length

/-- What is done with packets one after the other. -/
def record (arg : AsyncArg) (ps : List (List (BitVec 8))) (v : Receiving) : Receiving :=
  ps.foldl (fun v p => receivePacket arg p v) v

variable {ps : List (List (BitVec 8))} {p : List (BitVec 8)}

theorem record_concat : record arg (ps ++ [p]) v = receivePacket arg p (record arg ps v) := by
  rw [record, List.foldl_append]
  rfl

/-- Only the packets matter. -/
theorem asyncRecieve_eq (garbage : BitVec 32) (arg : AsyncArg)
    (received : List (Option (List (BitVec 8)))) :
    asyncRecieve garbage arg received =
      record arg (packets received) ⟨openFile arg, 1, 0, garbage⟩ := by
  unfold asyncRecieve
  generalize (⟨openFile arg, 1, 0, garbage⟩ : Receiving) = v
  induction received generalizing v with
  | nil => rfl
  | cons r received ih =>
    rw [List.foldl_cons, ih]
    cases r with
    | none => rfl
    | some datagram =>
      have hcons : packets (some datagram :: received) =
          if 0 < (datagram.take buffSize).length then
            datagram.take buffSize :: packets received
          else packets received := by
        rw [packets, List.filterMap_cons_some (f := id) rfl, List.map_cons, List.filter_cons]
        simp only [decide_eq_true_eq]
        rfl
      rw [hcons, receivePass]
      split_ifs <;> rfl

theorem receivePacket_text {chars : List Char} (hv : v.file = .text chars) :
    (receivePacket arg p v).file = .text (chars ++ (packetWords p).flatMap (hexLine 8)) := by
  simp only [receivePacket, hv]

theorem receivePacket_binary {bytes : List (BitVec 8)} (hv : v.file = .binary bytes) :
    (receivePacket arg p v).file = .binary (bytes ++ p) := by
  simp only [receivePacket, hv]

theorem receivePacket_fits (arg : AsyncArg) (p : List (BitVec 8)) {calls : List (ℤ × List Word)}
    (hv : v.file = .fits calls) :
    (receivePacket arg p v).file =
        .fits (if v.currPix ≤ arg.pixToRead then calls ++ [(v.currPix, packetWords p)]
          else calls) ∧
      (receivePacket arg p v).currPix =
        if v.currPix ≤ arg.pixToRead then v.currPix + (packetWords p).length
        else v.currPix := by
  rw [length_packetWords]
  simp only [receivePacket, hv]
  split_ifs <;> exact ⟨rfl, rfl⟩

/-- A text file has the words in lines. -/
theorem record_text {chars : List Char} (hv : v.file = .text chars) :
    (record arg ps v).file = .text (chars ++ (ps.flatMap packetWords).flatMap (hexLine 8)) := by
  induction ps using List.reverseRecOn with
  | nil => simp [record, hv]
  | append_singleton ps p ih =>
    rw [record_concat, receivePacket_text ih, List.flatMap_append, List.flatMap_append,
      List.flatMap_singleton, List.append_assoc]

/-- A binary file has the bytes. -/
theorem record_binary {bytes : List (BitVec 8)} (hv : v.file = .binary bytes) :
    (record arg ps v).file = .binary (bytes ++ ps.flatten) := by
  induction ps using List.reverseRecOn with
  | nil => simp [record, hv]
  | append_singleton ps p ih =>
    rw [record_concat, receivePacket_binary ih, List.flatten_append, List.flatten_singleton,
      List.append_assoc]

/-- The calls fill the image from its first pixel on without a gap, with the words of the
    packets up to the one that has the pixel `pixToRead`. -/
structure Raster (pixToRead : ℤ) (ps : List (List (BitVec 8))) (calls : List (ℤ × List Word)) :
    Prop where
  words : ∃ rest, ps.map packetWords = calls.map Prod.snd ++ rest ∧
    (rest = [] ∨ pixToRead ≤ (calls.flatMap Prod.snd).length)
  pixels : ∀ l c l', calls = l ++ c :: l' →
    c.1 = ((l.flatMap Prod.snd).length + 1 : ℤ) ∧ c.1 ≤ pixToRead

/-- One more call. -/
theorem Raster.call {pixToRead : ℤ} {calls : List (ℤ × List Word)} (h : Raster pixToRead ps calls)
    (hlt : ((calls.flatMap Prod.snd).length + 1 : ℤ) ≤ pixToRead) (p : List (BitVec 8)) :
    Raster pixToRead (ps ++ [p])
      (calls ++ [(((calls.flatMap Prod.snd).length + 1 : ℤ), packetWords p)]) := by
  obtain ⟨⟨rest, hwords, hrest⟩, hpixels⟩ := h
  obtain rfl : rest = [] := hrest.resolve_right (by omega)
  refine ⟨⟨[], by simp [hwords], .inl rfl⟩, fun l c l' heq => ?_⟩
  cases l' using List.reverseRecOn with
  | nil =>
    obtain ⟨rfl, hc⟩ := List.append_inj' heq rfl
    obtain rfl := (List.cons.inj hc).1
    exact ⟨rfl, hlt⟩
  | append_singleton l' c' =>
    rw [← List.cons_append, ← List.append_assoc] at heq
    exact hpixels l c l' (List.append_inj' heq rfl).1

/-- An image. -/
theorem record_fits (arg : AsyncArg) (ps : List (List (BitVec 8))) (hv : v.file = .fits [])
    (hpix : v.currPix = 1) :
    ∃ calls, (record arg ps v).file = .fits calls ∧
      (record arg ps v).currPix = (calls.flatMap Prod.snd).length + 1 ∧
      Raster arg.pixToRead ps calls := by
  induction ps using List.reverseRecOn with
  | nil =>
    refine ⟨[], hv, hpix, ⟨[], rfl, .inl rfl⟩, fun l c l' heq => ?_⟩
    cases l <;> cases heq
  | append_singleton ps p ih =>
    obtain ⟨calls, hfile, hcurr, hraster⟩ := ih
    obtain ⟨hfile', hcurr'⟩ := receivePacket_fits arg p hfile
    rw [record_concat, hfile', hcurr', hcurr]
    split_ifs with hlt
    · refine ⟨_, rfl, ?_, hraster.call hlt p⟩
      rw [List.flatMap_append, List.length_append, List.flatMap_singleton]
      push_cast
      omega
    · obtain ⟨⟨rest, hwords, -⟩, hpixels⟩ := hraster
      refine ⟨calls, rfl, rfl, ⟨rest ++ [packetWords p], ?_, .inr (by omega)⟩, hpixels⟩
      rw [List.map_append, hwords, List.append_assoc]
      rfl

/-! ## The files -/

/-- A file has what was received: an image its words in order, as far as it goes; a text file
    all of them, so that the datagram sent from it has the bytes that came; a binary file the
    bytes behind its header. -/
def Outfile.Holds (arg : AsyncArg) (ps : List (List (BitVec 8))) : Outfile → Prop
  | .fits calls => Raster arg.pixToRead ps calls
  | .text chars => readHex 32 chars = ps.flatMap packetWords ∧
      ∀ port sent, ((sendFile chars port).run sent).2 = sent ++ [⟨port, ps.flatMap hostWords⟩]
  | .binary bytes => bytes = binaryHeader arg ++ ps.flatten

theorem holds_text (arg : AsyncArg) (ps : List (List (BitVec 8))) :
    (Outfile.text ((ps.flatMap packetWords).flatMap (hexLine 8))).Holds arg ps := by
  have hread := readHex_lines 8 (ps.flatMap packetWords)
  refine ⟨hread, fun port sent => ?_⟩
  have hsent : ((sendFile ((ps.flatMap packetWords).flatMap (hexLine 8)) port).run sent).2 =
      sent ++ [⟨port, (readHex 32 ((ps.flatMap packetWords).flatMap (hexLine 8))).map bswap32⟩] :=
    rfl
  have hswap : (ps.flatMap packetWords).map bswap32 = ps.flatMap hostWords := by
    rw [List.map_flatMap]
    exact List.flatMap_congr fun p _ => map_bswap32_map (hostWords p)
  rw [hsent, hread, hswap]

theorem file_holds (garbage : BitVec 32) (arg : AsyncArg)
    (received : List (Option (List (BitVec 8)))) :
    (asyncRecieve garbage arg received).file.Holds arg (packets received) := by
  rw [asyncRecieve_eq]
  cases hopen : openFile arg with
  | fits calls =>
    obtain rfl : calls = [] := by
      unfold openFile at hopen
      split_ifs at hopen
      exact (Outfile.fits.inj hopen).symm
    obtain ⟨calls, hfile, -, hraster⟩ :=
      record_fits (v := ⟨.fits [], 1, 0, garbage⟩) arg (packets received) rfl rfl
    rw [hfile]
    exact hraster
  | text chars =>
    obtain rfl : chars = [] := by
      unfold openFile at hopen
      split_ifs at hopen
      exact (Outfile.text.inj hopen).symm
    rw [record_text rfl]
    exact holds_text arg (packets received)
  | binary bytes =>
    obtain rfl : bytes = binaryHeader arg := by
      unfold openFile at hopen
      split_ifs at hopen
      exact (Outfile.binary.inj hopen).symm
    rw [record_binary rfl]
    exact rfl

/-- The words in a file. -/
def Outfile.words (arg : AsyncArg) : Outfile → List Word
  | .fits calls => calls.flatMap Prod.snd
  | .text chars => readHex 32 chars
  | .binary bytes => packetWords (bytes.drop (binaryHeader arg).length)

/-- They are a beginning of what was received: only an image need not have all of it. -/
theorem Outfile.Holds.words_isPrefix {file : Outfile} (h : file.Holds arg ps)
    (hps : ∀ p ∈ ps, p.length % 4 = 0) : file.words arg <+: ps.flatMap packetWords := by
  cases file with
  | fits calls =>
    obtain ⟨rest, hwords, -⟩ := Raster.words h
    rw [List.flatMap_def (f := packetWords), hwords, List.flatten_append, ← List.flatMap_def]
    exact List.prefix_append _ _
  | text chars =>
    rw [← And.left h]
    exact List.prefix_rfl
  | binary bytes =>
    have hbytes : bytes = binaryHeader arg ++ ps.flatten := h
    rw [Outfile.words, hbytes, List.drop_left, packetWords_flatten hps]

/-- Datagrams that fit into the buffer are taken in as they are. -/
theorem packets_eq (h : ∀ d ∈ received.filterMap id, d.length ≤ buffSize) :
    packets received = (received.filterMap id).filter fun d => 0 < d.length := by
  have htake : (received.filterMap id).map (List.take buffSize) = received.filterMap id :=
    (List.map_congr_left fun d hd => List.take_of_length_le (h d hd)).trans (List.map_id _)
  rw [packets, htake]

theorem flatMap_packets (h : ∀ d ∈ received.filterMap id, d.length ≤ buffSize) :
    (packets received).flatMap packetWords = (received.filterMap id).flatMap packetWords := by
  rw [packets_eq h]
  induction received.filterMap id with
  | nil => rfl
  | cons d ds ih =>
    cases d with
    | nil => exact ih
    | cons b bs => exact congrArg (packetWords (b :: bs) ++ ·) ih

end FpgaEthernet.OdileServer
