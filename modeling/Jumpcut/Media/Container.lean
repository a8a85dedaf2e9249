namespace Jumpcut

structure Container where
  name : Option String := none
  (allowVideo allowAudio allowSubtitle allowImage : Bool := false)
  (maxVideos maxAudios maxSubtitles : Option Nat := none)
  (videoCodecs audioCodecs subtitleCodecs : Option (List String) := none)
  (videoStrict audioStrict subtitleStrict : Bool := false)
  (noVideo noAudio : List String := [])
  sampleRates : Option (List Int) := none
  deriving DecidableEq, Repr

namespace Container

def pcmCodecs : List String :=
  ["pcm_s16le", "pcm_alaw", "pcm_f32be", "pcm_f32le", "pcm_f64be", "pcm_f64le", "pcm_mulaw",
   "pcm_s16be", "pcm_s24be", "pcm_s24le", "pcm_s32be", "pcm_s32le", "pcm_s8", "pcm_u16be",
   "pcm_u16le", "pcm_u24be", "pcm_u24le", "pcm_u32be", "pcm_u32le", "pcm_u8", "pcm_vidc"]

def unknown : Container := { allowVideo := true, allowAudio := true, allowSubtitle := true }

def ofExt : String → Container
  | "aac" | "adts" =>
    { name := some "Advanced Audio Coding", allowAudio := true, maxAudios := some 1,
      audioCodecs := some ["aac"], audioStrict := true }
  | "ass" | "ssa" =>
    { name := some "SubStation Alpha", allowSubtitle := true, subtitleCodecs := some ["ass", "ssa"],
      maxSubtitles := some 1, subtitleStrict := true }
  | "264" | "h264" =>
    { name := some "H.264 / Advanced Video Coding (AVC) / MPEG-4 Part 10", allowVideo := true,
      videoCodecs := some ["h264", "mpeg4", "hevc"] }
  | "265" | "h265" | "hevc" =>
    { name := some "H.265 / High Efficiency Video Coding (HEVC) / MPEG-H Part 2",
      allowVideo := true, videoCodecs := some ["hevc", "mpeg4", "h264"] }
  | "mp4" | "m4a" =>
    { name := some "MP4 / MPEG-4 Part 14", allowVideo := true, allowAudio := true,
      allowSubtitle := true, allowImage := true,
      videoCodecs := some ["h264", "hevc", "vp9", "av1", "mpeg4", "mpeg2video", "mjpeg"],
      audioCodecs := some ["aac", "mp3", "opus", "flac", "vorbis", "mp2"],
      noVideo := ["prores", "apng", "gif", "msmpeg4v3", "flv1", "vp8", "rawvideo"],
      noAudio := pcmCodecs }
  | "ogg" | "ogv" =>
    { allowVideo := true, allowAudio := true, allowSubtitle := true,
      videoCodecs := some ["libtheora", "theora"],
      audioCodecs := some ["libvorbis", "vorbis", "flac", "opus", "speex"], videoStrict := true,
      audioStrict := true }
  | "apng" =>
    { name := some "Animated Portable Network Graphics", allowVideo := true, maxVideos := some 1,
      videoCodecs := some ["apng"], videoStrict := true }
  | "gif" =>
    { name := some "Graphics Interchange Format", allowVideo := true, maxVideos := some 1,
      videoCodecs := some ["gif"], videoStrict := true }
  | "wav" =>
    { name := some "Waveform Audio File Format", allowAudio := true, maxAudios := some 1,
      audioCodecs := some (pcmCodecs ++ ["mp3"]), audioStrict := true }
  | "ast" =>
    { name := some "AST / Audio Stream", allowAudio := true,
      audioCodecs := some ["pcm_s16be_planar"] }
  | "mp3" =>
    { name := some "MP3 / MPEG-2 Audio Layer 3", allowAudio := true, maxAudios := some 1,
      audioCodecs := some ["mp3"], audioStrict := true }
  | "opus" =>
    { name := some "Opus", allowAudio := true,
      audioCodecs := some ["opus", "flac", "libvorbis", "vorbis", "speex"], audioStrict := true }
  | "oga" =>
    { allowAudio := true, audioCodecs := some ["flac", "libvorbis", "vorbis", "opus", "speex"],
      audioStrict := true }
  | "flac" =>
    { name := some "Free Lossless Audio Codec", allowAudio := true, maxAudios := some 1,
      audioCodecs := some ["flac"] }
  | "webm" =>
    { name := some "WebM", allowVideo := true, allowAudio := true, allowSubtitle := true,
      videoCodecs := some ["vp9", "vp8", "av1", "libaom-av1"],
      audioCodecs := some ["opus", "vorbis"], subtitleCodecs := some ["webvtt"],
      videoStrict := true, audioStrict := true, subtitleStrict := true }
  | "srt" =>
    { name := some "SubRip Text / Subtitle Resource Tracks", allowSubtitle := true,
      subtitleCodecs := some ["srt"], maxSubtitles := some 1, subtitleStrict := true }
  | "vtt" =>
    { name := some "Web Video Text Track", allowSubtitle := true, subtitleCodecs := some ["webvtt"],
      maxSubtitles := some 1, subtitleStrict := true }
  | "avi" =>
    { name := some "Audio Video Interleave", allowVideo := true, allowAudio := true,
      videoCodecs := some ["mpeg4", "h264", "prores", "mjpeg", "mpeg2video", "rawvideo"],
      audioCodecs := some ["mp3", "aac", "vorbis", "mp2"], noVideo := ["hevc", "apng", "gif"] }
  | "wmv" =>
    { name := some "Windows Media Video", allowVideo := true, allowAudio := true,
      videoCodecs := some ["msmpeg4v3", "h264", "mpeg4", "mpeg2video", "mjpeg", "rawvideo"],
      audioCodecs := some ["wmav2", "aac", "flac"], noVideo := ["prores", "hevc", "apng", "gif"] }
  | "mkv" =>
    { name := some "Matroska", allowVideo := true, allowAudio := true, allowSubtitle := true,
      allowImage := true,
      videoCodecs := some ["h264", "hevc", "vp9", "vp8", "prores", "mpeg4", "mpeg2video",
        "msmpeg4v3", "mjpeg", "gif", "rawvideo"],
      audioCodecs := some ["libvorbis", "vorbis", "opus", "flac", "aac", "mp2"],
      noVideo := ["apng"] }
  | "mka" =>
    { name := some "Matroska Audio", allowAudio := true,
      audioCodecs := some ["libvorbis", "vorbis", "opus", "flac", "aac", "mp2"] }
  | "mov" =>
    { name := some "QuickTime / MOV", allowVideo := true, allowAudio := true, allowSubtitle := true,
      videoCodecs := some ["h264", "hevc", "prores", "mpeg4", "mpeg2video", "msmpeg4v3", "mjpeg",
        "gif", "flv1", "rawvideo"],
      audioCodecs := some ["aac", "mp3", "mp2", "vorbis"], noAudio := ["opus", "flac"],
      noVideo := ["apng", "vp9", "vp8"] }
  | "swf" =>
    { name := some "ShockWave Flash / Small Web Format", allowVideo := true, allowAudio := true,
      videoCodecs := some ["flv1", "mjpeg"], audioCodecs := some ["mp3"], videoStrict := true,
      audioStrict := true, sampleRates := some [44100, 22050, 11025] }
  | _ => unknown

end Container

end Jumpcut
