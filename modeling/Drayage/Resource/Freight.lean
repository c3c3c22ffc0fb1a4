import Drayage.Resource.Metadata

/-!
# Freight

A piece of Freight is a bundle of artifact versions from one origin. It never changes,
apart from its status, which records where it was approved and verified. Stages and
Promotions hold references to it.
-/

namespace Drayage

inductive OriginKind where
  | warehouse
  deriving DecidableEq, Inhabited

def OriginKind.name : OriginKind → String
  | .warehouse => "Warehouse"

def OriginKind.codec : Codec OriginKind := .variants [.warehouse] OriginKind.name

structure Origin where
  kind : OriginKind
  name : String
  deriving DecidableEq, Inhabited

namespace Origin

def warehouse (name : String) : Origin := ⟨.warehouse, name⟩

def text (o : Origin) : String := o.kind.name ++ "/" ++ o.name

def codec : Codec Origin :=
  .record "Origin"
    (.defaulted "kind" OriginKind.codec .warehouse <| .required "name" .text .done)
    (fun o => (o.kind, o.name, ())) (fun (kind, name, ()) => ⟨kind, name⟩)

end Origin

structure Commit where
  repoUrl : String
  id : Option String
  branch : Option String
  tag : Option String
  message : Option String
  deriving DecidableEq, Inhabited

def Commit.codec : Codec Commit :=
  .record "Commit"
    (.required "repoUrl" .text <| .maybe "id" .text <| .maybe "branch" .text <|
      .maybe "tag" .text <| .maybe "message" .text .done)
    (fun c => (c.repoUrl, c.id, c.branch, c.tag, c.message, ()))
    (fun (repoUrl, id, branch, tag, message, ()) => ⟨repoUrl, id, branch, tag, message⟩)

structure Image where
  repoUrl : String
  tag : Option String
  digest : Option String
  deriving DecidableEq, Inhabited

def Image.codec : Codec Image :=
  .record "Image"
    (.required "repoUrl" .text <| .maybe "tag" .text <| .maybe "digest" .text .done)
    (fun i => (i.repoUrl, i.tag, i.digest, ()))
    (fun (repoUrl, tag, digest, ()) => ⟨repoUrl, tag, digest⟩)

structure Chart where
  repoUrl : String
  name : String
  version : String
  deriving DecidableEq, Inhabited

def Chart.codec : Codec Chart :=
  .record "Chart"
    (.required "repoUrl" .text <| .nonempty "name" <| .required "version" .text .done)
    (fun c => (c.repoUrl, c.name, c.version, ()))
    (fun (repoUrl, name, version, ()) => ⟨repoUrl, name, version⟩)

/-- A reference to Freight, with a copy of its artifact versions. -/
structure FreightReference where
  name : String
  origin : Origin
  commits : List Commit
  images : List Image
  charts : List Chart
  deriving DecidableEq, Inhabited

namespace FreightReference

def named (name : String) (origin : Origin) : FreightReference := ⟨name, origin, [], [], []⟩

def codec : Codec FreightReference :=
  .record "FreightReference"
    (.required "name" .text <| .required "origin" Origin.codec <|
      .many "commits" Commit.codec <| .many "images" Image.codec <|
      .many "charts" Chart.codec .done)
    (fun r => (r.name, r.origin, r.commits, r.images, r.charts, ()))
    (fun (name, origin, commits, images, charts, ()) => ⟨name, origin, commits, images, charts⟩)

end FreightReference

/-- The Stages that Freight was approved for by hand, and those it was verified in. -/
structure FreightStatus where
  approvedFor : Dict String Unit
  verifiedIn : Dict String Unit
  deriving DecidableEq, Inhabited

def FreightStatus.codec : Codec FreightStatus :=
  .record "FreightStatus"
    (.field "approvedFor" .textSet (.standsFor ∅) Dict.isEmpty <|
      .field "verifiedIn" .textSet (.standsFor ∅) Dict.isEmpty .done)
    (fun s => (s.approvedFor, s.verifiedIn, ()))
    (fun (approvedFor, verifiedIn, ()) => ⟨approvedFor, verifiedIn⟩)

structure Freight where
  metadata : Metadata
  nickname : Option String
  origin : Origin
  commits : List Commit
  images : List Image
  charts : List Chart
  status : FreightStatus
  deriving DecidableEq, Inhabited

namespace Freight

def fresh (metadata : Metadata) (origin : Origin) : Freight :=
  ⟨metadata, none, origin, [], [], [], ⟨∅, ∅⟩⟩

def reference (f : Freight) : FreightReference :=
  ⟨f.metadata.name, f.origin, f.commits, f.images, f.charts⟩

def isApprovedFor (f : Freight) (stage : String) : Bool := f.status.approvedFor.contains stage

def isVerifiedIn (f : Freight) (stage : String) : Bool := f.status.verifiedIn.contains stage

def codec (now : Instant) : Codec Freight :=
  .record "Freight"
    (.required "metadata" (Metadata.codec now) <| .maybe "alias" .text <|
      .required "origin" Origin.codec <| .many "commits" Commit.codec <|
      .many "images" Image.codec <| .many "charts" Chart.codec <|
      .defaulted "status" FreightStatus.codec ⟨∅, ∅⟩ .done)
    (fun f => (f.metadata, f.nickname, f.origin, f.commits, f.images, f.charts, f.status, ()))
    (fun (metadata, nickname, origin, commits, images, charts, status, ()) =>
      ⟨metadata, nickname, origin, commits, images, charts, status⟩)

end Freight

end Drayage
