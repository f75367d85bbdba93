import SaveTree.Path.Basic

namespace SaveTree
namespace Path

/-!
# Well-known folders

An application keeps its data in a fixed set of folders.  None of them depends
on the machine: each one is a path below `/app`.
-/

/-- The folders an application can ask for. -/
inductive Folder where
  | appData
  | appLocalData
  | appConfig
  | appCache
  | appLog
  | desktop
  | document
  | download
  | home
  | audio
  | picture
  | publicShare
  | video
  | resource
  | temp
  deriving DecidableEq

namespace Folder

/-- Where the folder is. -/
def path : Folder → String
  | appData => "/app/data"
  | appLocalData => "/app/local-data"
  | appConfig => "/app/config"
  | appCache => "/app/cache"
  | appLog => "/app/log"
  | desktop => "/app/desktop"
  | document => "/app/documents"
  | download => "/app/downloads"
  | home => "/app/home"
  | audio => "/app/audio"
  | picture => "/app/pictures"
  | publicShare => "/app/public"
  | video => "/app/videos"
  | resource => "/app/resources"
  | temp => "/app/temp"

/-- A path inside the folder. -/
def join (folder : Folder) (relative : String) : String :=
  Path.join [folder.path, relative]

end Folder

end Path
end SaveTree
