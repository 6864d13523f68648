import Baize.Util.StringPiece

namespace Baize.Sdp

open StringPiece

/-- The media types that `Decode` keeps; it goes past a section of any other type. -/
inductive MediaType
  | audio
  | video
  deriving DecidableEq, Repr

structure TrackSdp where
  mediaType : MediaType
  ssrcGroup : List Bytes
  deriving DecidableEq, Repr

structure NetSdp where
  iceUfrag : Bytes
  icePwd : Bytes
  fingerPrint : Bytes
  deriving DecidableEq, Repr

structure SdpMessage where
  cname : Bytes
  tracks : List TrackSdp
  net : NetSdp
  deriving DecidableEq, Repr

def crlf : Bytes := [13, 10]

def mediaMark : Bytes := [109, 61]

def audioMark : Bytes := [97, 117, 100, 105, 111]

def videoMark : Bytes := [118, 105, 100, 101, 111]

def ssrcGroupMark : Bytes := [115, 115, 114, 99, 45, 103, 114, 111, 117, 112, 58, 70, 73, 68]

def ssrcMark : Bytes := [115, 115, 114, 99, 58]

def iceUfragMark : Bytes := [105, 99, 101, 45, 117, 102, 114, 97, 103, 58]

def icePwdMark : Bytes := [105, 99, 101, 45, 112, 119, 100, 58]

def fingerprintMark : Bytes := [102, 105, 110, 103, 101, 114, 112, 114, 105, 110, 116, 58]

def cnameMark : Bytes := [99, 110, 97, 109, 101, 58]

namespace TrackSdp

def ssrcIds (mediaItem : Bytes) : List Bytes :=
  if find mediaItem ssrcGroupMark = mediaItem.length then
    let ssrcId := sliceFragment mediaItem ssrcMark [32]
    if ssrcId = [] then [] else [ssrcId]
  else
    let ssrcIds := sliceFragment mediaItem ssrcGroupMark crlf
    if ssrcIds = [] then [] else split ssrcIds [32]

def ofItem (mediaItem : Bytes) : Option TrackSdp :=
  if startsWith mediaItem audioMark then some ⟨.audio, ssrcIds mediaItem⟩
  else if startsWith mediaItem videoMark then some ⟨.video, ssrcIds mediaItem⟩
  else none

end TrackSdp

namespace SdpMessage

def fresh : SdpMessage := ⟨[], [], ⟨[], [], []⟩⟩

def assign (field fragment : Bytes) : Bytes := if fragment = [] then field else fragment

def decode (m : SdpMessage) (message : Bytes) : ℤ × SdpMessage :=
  let iceUfrag := sliceFragment message iceUfragMark crlf
  let icePwd := sliceFragment message icePwdMark crlf
  let fingerPrint := sliceFragment message fingerprintMark crlf
  let cname := sliceFragment message cnameMark crlf
  let mediaSlice := message.drop (find message mediaMark)
  let mediaVector := split mediaSlice mediaMark
  (0, {
    cname := assign m.cname cname
    tracks := m.tracks ++ mediaVector.filterMap TrackSdp.ofItem
    net := {
      iceUfrag := assign m.net.iceUfrag iceUfrag
      icePwd := assign m.net.icePwd icePwd
      fingerPrint := assign m.net.fingerPrint fingerPrint } })

end SdpMessage

end Baize.Sdp
