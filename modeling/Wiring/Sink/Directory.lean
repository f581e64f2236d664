import Wiring.Emission
import Wiring.FileSystem

/-!
The sink that writes artifacts into a directory and, if it mirrors, beside their source files.
-/
namespace Wiring

structure DirectorySink where
  root : Path
  mirrors : Bool
deriving DecidableEq, Repr

namespace DirectorySink

def ofConfig (config : Config) : DirectorySink :=
  ⟨Path.ofString config.cacheDir, config.mirrorBesideInputs⟩

def artifactPath (s : DirectorySink) (a : Artifact) : Path := s.root.join (Path.ofString a.name)

def mirrorPath (a : Artifact) : Path :=
  (Path.ofString a.source).withFileName (Path.ofString a.name)

def inWords (a : FileSystem.Attempt) : Option String × FileSystem :=
  (a.1.map FileError.message, a.2)

def sink (s : DirectorySink) : Sink FileSystem where
  emit a fs :=
    match fs.ensureDirectories s.root with
    | (some e, fs) => (some e.message, fs)
    | (none, fs) => inWords (fs.writeIfChanged (s.artifactPath a) (Text.encode a.contents))
  mirror a fs :=
    if s.mirrors then inWords (fs.writeIfChanged (mirrorPath a) (Text.encode a.contents))
    else (none, fs)

end DirectorySink

end Wiring
